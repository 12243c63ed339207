import DebugSymbols.Proofs.Import.Comparisons
import DebugSymbols.Proofs.Import.Handlers

/-!
What the handler of structures and unions comes to.  `tracks_recordFor` says how an entry gets
its structure, `tracks_addMembers` what it knows about the members that the structure gets, and
`describes_recordType` that it finds what is so.
-/

namespace DebugSymbols.Importer

variable {i : Importer} {scope : Scope} {σ : History} {d : Die} {resolve : Resolver}

/-! ## The structure of an entry -/

theorem Sound.structOrdinal (hs : i.Sound σ) {id : StructId} {o : Ordinal} :
    σ.session.structOrdinal id = .ok o ↔ σ.session.Record id o := by
  unfold Session.structOrdinal Session.Record
  rw [hs.structDef?]
  split <;> simp_all

theorem defines_of_kind {s : Session} {id : StructId} {def_ : StructDef}
    (hdef : s.host.database.structDef? id = some def_) (hkind : d.tag = kindOf def_) :
    s.Defines d def_.ordinal (def_.shape id) := by
  unfold StructDef.shape
  unfold kindOf at hkind
  split
  · rename_i hunion
    rw [if_pos hunion] at hkind
    exact ⟨hkind, def_, hdef, rfl⟩
  · rename_i hunion
    rw [if_neg hunion] at hkind
    exact ⟨hkind, def_, hdef, rfl⟩

theorem kind_of_defines {s : Session} {id : StructId} {def_ : StructDef} {o : Ordinal}
    (h : s.Defines d o (def_.shape id)) : d.tag = kindOf def_ := by
  unfold StructDef.shape at h
  unfold kindOf
  split at h
  · rename_i hunion
    rw [if_pos hunion]
    exact h.1
  · rename_i hunion
    rw [if_neg hunion]
    exact h.1

theorem translates_definition {s : Session} {o : Ordinal} {shape : TypeShape}
    (hdef : d.DefinesRecord) : s.Translates d o shape ↔ s.Defines d o shape := by
  unfold Session.Translates
  obtain ⟨hrecord, hdeclaration⟩ := hdef
  rcases isRecord_iff.mp hrecord with htag | htag
  all_goals rw [htag, hdeclaration]

/-- A structure of the entry's kind is its translation. -/
theorem Sound.denotes_of_kind (hs : i.Sound σ) (hdef : d.DefinesRecord) {id : StructId}
    {def_ : StructDef} (hget : σ.session.host.database.structDef? id = some def_)
    (hkind : d.tag = kindOf def_) : σ.session.Denotes d def_.ordinal :=
  ⟨_, hs.coherent.structs hget, (translates_definition hdef).mpr (defines_of_kind hget hkind)⟩

/-- The entry that the type comes from, if that is pending. -/
def pendingOrigin? (s : Session) (o : Ordinal) : Option UInt64 := do
  let offset ← s.cache.typeOffset? o
  if s.cache.isPending offset then some offset else none

theorem pendingOrigin?_eq_some {s : Session} {o : Ordinal} {x : UInt64}
    (h : pendingOrigin? s o = some x) :
    s.cache.typeOffset? o = some x ∧ s.cache.isPending x = true := by
  obtain ⟨y, hy, h⟩ := Option.bind_eq_some_iff.mp h
  split at h
  · rename_i hpending
    cases h
    exact ⟨hy, hpending⟩
  · cases h

theorem Sound.describesStruct_eq (hs : i.Sound σ) {id : StructId} {def_ : StructDef}
    (hget : σ.session.host.database.structDef? id = some def_) (d : Die) :
    i.describesStruct σ.session id d =
      match pendingOrigin? σ.session def_.ordinal with
      | some x => do sameLayout (← i.info.dieAt x) d
      | none => describesRecord σ.session.host id d := by
  have hordinal : σ.session.structOrdinal id = .ok def_.ordinal :=
    hs.structOrdinal.mpr ⟨def_, hget, rfl⟩
  unfold describesStruct
  rw [hordinal]
  rfl

/-- A pending type comes from the entry that its structure was made for. -/
theorem Sound.pendingOrigin (hs : i.Sound σ) {o : Ordinal} {x : UInt64}
    (h : pendingOrigin? σ.session o = some x) :
    ∃ d id, i.info.dieAt x = .ok d ∧ d.DefinesRecord ∧ σ.session.Denotes d o ∧
      (x, id) ∈ σ.makers ∧ σ.session.Record id o := by
  obtain ⟨horigin, hpending⟩ := pendingOrigin?_eq_some h
  obtain ⟨pending, htype⟩ := hs.origins horigin
  have hpending' : pending = true := by simpa [OffsetCache.isPending, htype] using hpending
  rw [hpending'] at htype
  obtain ⟨d, id, -, hat, hdef, hmade, hrecord, -⟩ := hs.pending htype
  obtain ⟨d', hat', hdenotes⟩ := hs.types ⟨_, htype⟩
  rw [hat] at hat'
  cases hat'
  exact ⟨d, id, hat, hdef, hdenotes, hmade, hrecord⟩

/-- A structure that an entry describes is of the entry's kind. -/
theorem Sound.describesStruct_kind (hs : i.Sound σ) {id : StructId} {def_ : StructDef}
    (hget : σ.session.host.database.structDef? id = some def_)
    (hd : i.describesStruct σ.session id d = .ok true) : d.tag = kindOf def_ := by
  rw [hs.describesStruct_eq hget] at hd
  split at hd
  · rename_i x horigin
    obtain ⟨d₀, hat, hsame⟩ := Except.bind_eq_ok hd
    obtain ⟨d₁, -, hat₁, hdef, ⟨t, ht, htranslates⟩, -, -⟩ := hs.pendingOrigin horigin
    rw [hat] at hat₁
    cases hat₁
    rw [hs.coherent.structs hget] at ht
    cases ht
    rw [← (of_sameLayout hsame).1.1]
    exact kind_of_defines ((translates_definition hdef).mp htranslates)
  · exact (of_describesRecord (by rwa [hs.structDef?]) hd).1

/-- What looking for the structure or union of an entry ends with, and the session it leaves. -/
inductive RecordLookup (s : Session) (d : Die) :
    Except ImportError (StructId × Bool) × Session → Prop
  | found {id : StructId} : RecordLookup s d (.ok (id, true), s)
  | added {name : Option String} {id : StructId} {h : Host} :
      s.host.addStruct? name (d.tag = .unionType) = some (id, h) →
      RecordLookup s d (.ok (id, false), { s with host := h })
  | failed {e : ImportError} : RecordLookup s d (.error e, s)

theorem recordLookup_recordFor (d : Die) (s : Session) :
    RecordLookup s d ((i.recordFor d).run.run s) := by
  refine run_read_bind (fun name? _ => ?_) fun _ _ => .failed
  cases name? with
  | some name =>
    exact Registry.run_reuseOrAdd (P := RecordLookup s d) (fun _ _ _ _ _ _ => .found)
      (fun _ _ _ _ _ _ hadd => .added hadd) (fun _ => .failed) fun _ _ _ _ _ => .failed
  | none =>
    change RecordLookup s d ((anonymousStruct (d.tag = .unionType)).run.run s)
    unfold anonymousStruct
    rw [Attempt.run_get_bind]
    split
    · rename_i hadd
      exact .added hadd
    · exact .failed

/-- What is known of the structure that an entry got. -/
def Got (i : Importer) (σ : History) (d : Die) (id : StructId) : Bool → Prop
  | true =>
    σ.Fresh d.offset ∧ ∃ name k, d.name? = .ok (some name) ∧
      (i.recordRegistry d).Reaches σ.session name k ∧
      σ.session.host.findStruct? (underscored k name) = some id ∧
      i.describesStruct σ.session id d = .ok true
  | false =>
    (d.offset, id) ∈ σ.makers ∧
      ∃ def_, σ.session.host.database.structDef? id = some def_ ∧ d.tag = kindOf def_

theorem Creates.kind {s : Session} {id : StructId} {h : Host} (hc : i.Creates s d id h)
    (hcoherent : s.host.database.Coherent) :
    ∃ def_, h.database.structDef? id = some def_ ∧ d.tag = kindOf def_ := by
  obtain ⟨name, hadd, -⟩ := hc.added
  obtain ⟨db, hdb, rfl⟩ := Host.addStruct?_eq_some hadd
  obtain ⟨def_, ha⟩ := Database.addsStruct hcoherent hdb
  refine ⟨def_, by rw [ha.structDef?, if_pos rfl], ?_⟩
  unfold kindOf
  rw [ha.isUnion]
  rcases isRecord_iff.mp hc.defines.1 with htag | htag <;> simp [htag]

theorem tracks_recordFor (ht : i.Turn σ d) (hfresh : σ.Fresh d.offset) (hdef : d.DefinesRecord)
    (hlayout : ∃ layout, d.layout = .ok layout) :
    Attempt.Tracks i scope σ (i.recordFor d) (fun got τ => i.Got τ d got.1 got.2)
      fun _ _ => True := by
  have create {id : StructId} {h : Host} (hc : i.Creates σ.session d id h) :
      ∃ τ, i.Change scope σ τ ∧ τ.session = { σ.session with host := h } ∧
        i.Got τ d id false :=
    ⟨_, .create σ ht.head hfresh hc, rfl, List.mem_cons_self, hc.kind ht.sound.coherent⟩
  refine Attempt.tracks_read_bind (fun name hname => ?_) fun _ _ => trivial
  cases name with
  | some name =>
    refine Registry.tracks_reuseOrAdd ?_ ?_ fun _ => trivial
    · intro id k hreaches hfind hfits
      exact ⟨hfresh, name, k, hname, hreaches, hfind, Except.mapError_eq_ok.mp hfits⟩
    · intro id h k hreaches _ hadd
      exact create ⟨ht.at_, hdef, hlayout, _, hadd, .inr ⟨name, k, hname, rfl, hreaches⟩⟩
  | none =>
    refine Attempt.tracks_get_bind ?_
    split
    · rename_i id h hadd
      obtain ⟨τ, hchange, heq, hgot⟩ :=
        create ⟨ht.at_, hdef, hlayout, none, hadd, .inl ⟨hname, rfl⟩⟩
      refine Attempt.tracks_bind (Attempt.tracks_lift (tracks_setHost hchange heq)) ?_
      rintro _ υ - - rfl
      exact Attempt.tracks_pure hgot
    · exact Attempt.tracks_throw trivial

/-! ## Members -/

/-- The types of members that an attempt went over: those that are not there are to come, unless
the attempt succeeded for all of them. -/
def Settles (i : Importer) (τ : History) (members : List MemberLayout) (complete : Bool) : Prop :=
  ∀ m ∈ members, ∀ y, m.typeOffset = some y →
    (∃ o, τ.session.TypeAt y o) ∨
      (!complete) = true ∧ (τ.session.cache.has y = true ∨ i.Awaits τ.session.resolving y)

/-- The entry may give the structure its members now. -/
structure Fills (i : Importer) (scope : Scope) (σ : History) (d : Die) (id : StructId)
    (layout : List MemberLayout) : Prop where
  sound : i.Sound σ
  at_ : i.info.dieAt d.offset = .ok d
  made : (d.offset, id) ∈ σ.makers
  known : ∃ o, σ.session.Record id o
  turn : MayFill scope d.offset σ.session.resolving
  reads : d.layout = .ok layout
  mayAsk : ∀ m ∈ layout, ∀ y, m.typeOffset = some y → i.MayAsk scope y σ.session.resolving

theorem Fills.later {τ : History} {id : StructId} {layout : List MemberLayout}
    (h : i.Fills scope σ d id layout) (ht : i.Trace scope σ τ)
    (hstack : τ.session.resolving = σ.session.resolving) : i.Fills scope τ d id layout :=
  ⟨Trace.sound h.sound ht, h.at_, Trace.makers ht h.made,
    h.known.imp fun _ hrecord => hrecord.mono (Trace.extends h.sound ht), hstack ▸ h.turn, h.reads,
    hstack ▸ h.mayAsk⟩

/-- An entry that gets a structure of its own is ready to fill it. -/
theorem Got.fills {id : StructId} {layout : List MemberLayout} (ht : i.Turn σ d)
    (hdef : d.DefinesRecord) (hlayout : d.layout = .ok layout) (hgot : i.Got σ d id false) :
    i.Fills scope σ d id layout := by
  obtain ⟨hmade, def_, hget, -⟩ := hgot
  exact ⟨ht.sound, ht.at_, hmade, ⟨_, def_, hget, rfl⟩, .inl ht.head, hlayout, fun m hm _ hy =>
    ht.mayAsk (.inr ⟨hdef.1, layout, hlayout, m, hm, hy⟩)⟩

/-- A type that is there can be linked to, though its size may be unknown. -/
theorem sizedLinkTo_of_some {s : Session} {o : Ordinal} {type : NamedType}
    (h : s.host.numberedType? o = some type) :
    (∃ link size, s.host.typeSize? o = some size ∧ s.sizedLinkTo o = .ok (link, size)) ∨
      s.host.typeSize? o = none ∧ s.sizedLinkTo o = .error (.sizeUnknown o) := by
  have hlink : ∃ link, s.linkTo o = .ok link := by
    unfold Session.linkTo
    rw [h]
    obtain ⟨_, shape⟩ := type
    cases shape <;> exact ⟨_, rfl⟩
  obtain ⟨link, hlink⟩ := hlink
  unfold Session.sizedLinkTo
  rw [hlink]
  cases s.host.typeSize? o with
  | none => exact .inr ⟨rfl, rfl⟩
  | some size => exact .inl ⟨link, size, rfl, rfl⟩

theorem Sound.typeSize? (hs : i.Sound σ) (o : Ordinal) :
    σ.session.host.typeSize? o = σ.session.host.database.typeSize? o := by
  simp [Host.typeSize?, hs.accepts]

/-- The type of a member can be linked to, though its size may be unknown. -/
theorem Sound.sizedLinkTo_of_typeAt (hs : i.Sound σ) {y : UInt64} {o : Ordinal}
    (ht : σ.session.TypeAt y o) :
    (∃ link size, σ.session.host.typeSize? o = some size ∧
        σ.session.sizedLinkTo o = .ok (link, size)) ∨
      σ.session.host.typeSize? o = none ∧
        σ.session.sizedLinkTo o = .error (.sizeUnknown o) := by
  obtain ⟨-, -, t, hget, -⟩ := hs.types ht
  exact sizedLinkTo_of_some ((hs.numberedType? o).trans hget)

theorem Sound.sizedLinkTo (hs : i.Sound σ) {y : UInt64} {o : Ordinal}
    (ht : σ.session.TypeAt y o) {e : ImportError} (he : σ.session.sizedLinkTo o = .error e) :
    e = .sizeUnknown o ∧ σ.session.host.typeSize? o = none := by
  rcases hs.sizedLinkTo_of_typeAt ht with ⟨_, _, -, hok⟩ | ⟨hsize, herror⟩
  · cases he.symm.trans hok
  · cases he.symm.trans herror
    exact ⟨rfl, hsize⟩

theorem Sound.sizedLinkTo_eq_error (hs : i.Sound σ) {y : UInt64} {o : Ordinal}
    (htype : σ.session.TypeAt y o) (hsize : σ.session.host.typeSize? o = none) :
    σ.session.sizedLinkTo o = .error (.sizeUnknown o) := by
  rcases hs.sizedLinkTo_of_typeAt htype with ⟨_, _, hsome, -⟩ | ⟨-, herror⟩
  · cases hsize.symm.trans hsome
  · exact herror

/-- A member is refused if there is one of its name. -/
theorem named_of_refused (hs : i.Sound σ) {id : StructId} {def_ : StructDef} {m : Member}
    (hget : σ.session.host.database.structDef? id = some def_)
    (hadd : σ.session.host.addStructMember? id m = none) :
    ∃ member ∈ def_.members, member.name = m.name := by
  unfold Host.addStructMember? at hadd
  rw [hs.accepts, if_neg Bool.false_ne_true, Option.map_eq_none_iff] at hadd
  unfold Database.addStructMember? at hadd
  simp only [hget, Option.bind_eq_bind, Option.bind_some] at hadd
  split at hadd
  · rename_i hany
    simpa using hany
  · cases hadd

/-- The structure has a member of that name. -/
def Named (τ : History) (id : StructId) (name : String) : Prop :=
  ∃ def_, τ.session.host.database.structDef? id = some def_ ∧
    ∃ member ∈ def_.members, member.name = name

theorem Named.later {τ : History} {id : StructId} {name : String} (h : Named σ id name)
    (he : σ.session.Extends τ.session) : Named τ id name := by
  obtain ⟨def_, hget, member, hmember, hname⟩ := h
  obtain ⟨members, hget', hsub⟩ := he.host.database.structs hget
  exact ⟨_, hget', member, hsub hmember, hname⟩

/-- What an attempt at a member, whose type was looked for, comes to.  The member is there if it is
done, unless the size of its type was unknown. -/
def Tried (i : Importer) (σ τ : History) (id : StructId) (m : MemberLayout) (y : UInt64)
    (r : TypeRef) (done : Bool) : Prop :=
  if done then ∃ o, r = .resolved o ∧ τ.session.TypeAt y o ∧ (Named τ id m.name ∨
    σ.session.host.typeSize? o = none ∧ τ.session.host = σ.session.host)
  else τ.session.cache.has y = true ∧ τ.session.cache.type? y = none ∨
    i.Awaits τ.session.resolving y

theorem tracks_attachMember {id : StructId} {layout : List MemberLayout}
    (hf : i.Fills scope σ d id layout) {m : MemberLayout} (hm : m ∈ layout) {y : UInt64}
    (hy : m.typeOffset = some y) {o : Ordinal} (htype : σ.session.TypeAt y o) :
    Attempt.Tracks i scope σ (attachMember d.offset id m o)
      (fun _ τ => Named τ id m.name ∨
        σ.session.host.typeSize? o = none ∧ τ.session.host = σ.session.host)
      fun _ _ => False := by
  refine Attempt.tracks_get_bind ?_
  split
  · rename_i type size hsized
    refine Attempt.tracks_get_bind ?_
    dsimp only
    cases hadd : σ.session.host.addStructMember? id ⟨m.name, m.offset, size, type⟩ with
    | none =>
      have hsame : i.Change scope σ σ := .note σ σ.session.stats σ.session.warnings
      refine Attempt.tracks_lift ((tracks_setHost hsame rfl).imp fun _ τ _ _ heq => .inl ?_)
      obtain ⟨o', def_, hget, -⟩ := hf.known
      rw [heq]
      exact ⟨def_, hget, named_of_refused hf.sound hget hadd⟩
    | some h =>
      have hattach : i.Attaches σ d id ⟨m.name, m.offset, size, type⟩ h :=
        ⟨hf.at_, hf.made,
          ⟨layout, hf.reads, m, hm, y, o, hy, htype, type, size, hsized, rfl⟩, hadd⟩
      refine Attempt.tracks_lift ((tracks_setHost (.attach σ hf.turn hattach) rfl).imp
        fun _ τ _ _ heq => .inl ?_)
      obtain ⟨db, hdb, rfl⟩ := Host.addStructMember?_eq_some hadd
      obtain ⟨def_, hadds⟩ := Database.addsMember hdb
      rw [heq]
      exact ⟨_, by rw [hadds.structDef?, if_pos rfl], _, Database.mem_insertMember.mpr (.inl rfl),
        rfl⟩
  · rename_i o' hsized
    obtain ⟨-, hsize⟩ := hf.sound.sizedLinkTo htype hsized
    exact Attempt.tracks_lift ((Step.tracks_warn _).imp fun _ τ _ _ hsame => .inr ⟨hsize, hsame.2⟩)
  · rename_i e hother hsized
    exact absurd (hf.sound.sizedLinkTo htype hsized).1 (hother o)

theorem tracks_addResolved {id : StructId} {layout : List MemberLayout}
    (hf : i.Fills scope σ d id layout) {m : MemberLayout} (hm : m ∈ layout) {y : UInt64}
    (hy : m.typeOffset = some y) {r : TypeRef} (hr : i.Answers σ y r) :
    Attempt.Tracks i scope σ (addResolved d.offset id m r)
      (fun done τ => i.Tried σ τ id m y r done) fun _ _ => False := by
  cases r with
  | inProgress => exact Attempt.tracks_pure (.inr hr)
  | missing => exact Attempt.tracks_pure (.inl hr)
  | resolved o =>
    refine Attempt.tracks_bind (tracks_attachMember hf hm hy hr) fun _ τ htrace _ hattached => ?_
    exact Attempt.tracks_pure ⟨o, rfl, (Trace.extends hf.sound htrace).types hr, hattached⟩

/-- What an attempt at a member comes to. -/
def Attempted (i : Importer) (resolve : Resolver) (σ τ : History) (id : StructId)
    (m : MemberLayout) (done : Bool) : Prop :=
  (m.typeOffset = none → done = true) ∧ ∀ y, m.typeOffset = some y →
    ∃ μ r, (resolve y).run σ.session = (r, μ.session) ∧ i.Tried μ τ id m y r done

theorem tracks_addMember (hr : i.Resolves scope resolve) {id : StructId}
    {layout : List MemberLayout} (hf : i.Fills scope σ d id layout) {m : MemberLayout}
    (hm : m ∈ layout) :
    Attempt.Tracks i scope σ (addMember resolve d.offset id m)
      (fun done τ => i.Attempted resolve σ τ id m done) fun _ _ => False := by
  unfold addMember
  split
  · rename_i hnone
    exact Attempt.tracks_pure ⟨fun _ => rfl, by simp [hnone]⟩
  · rename_i y hy
    have hresolve := (hr σ y hf.sound (hf.mayAsk m hm y hy)).run
    refine Attempt.tracks_bind (Attempt.tracks_lift hresolve) ?_
    rintro r μ htrace hstack ⟨hrun, hanswer⟩
    refine (tracks_addResolved (hf.later htrace hstack) hm hy hanswer).imp ?_ fun _ _ h => h
    refine fun done τ _ _ htried => ⟨by simp [hy], fun y' hy' => ?_⟩
    rw [hy] at hy'
    cases hy'
    exact ⟨_, _, hrun, htried⟩

theorem Tried.settles {τ : History} {id : StructId} {m : MemberLayout} {y : UInt64} {r : TypeRef}
    {done : Bool} (hy : m.typeOffset = some y) (h : i.Tried σ τ id m y r done) :
    i.Settles τ [m] done := by
  intro m' hm' y' hy'
  obtain rfl := List.mem_singleton.mp hm'
  rw [hy] at hy'
  cases hy'
  cases done with
  | true =>
    obtain ⟨o, -, htype, -⟩ := h
    exact .inl ⟨o, htype⟩
  | false => exact .inr ⟨rfl, Or.imp_left And.left h⟩

theorem Attempted.settles {τ : History} {id : StructId} {m : MemberLayout} {done : Bool}
    (h : i.Attempted resolve σ τ id m done) : i.Settles τ [m] done := by
  intro m' hm' y hy
  obtain rfl := List.mem_singleton.mp hm'
  obtain ⟨μ, r, -, htried⟩ := h.2 y hy
  exact htried.settles hy m' hm' y hy

theorem Settles.later {τ : History} {members : List MemberLayout} {complete : Bool}
    (h : i.Settles σ members complete) (hs : i.Sound σ) (ht : i.Trace scope σ τ)
    (hstack : τ.session.resolving = σ.session.resolving) : i.Settles τ members complete := by
  intro m hm y hy
  rcases h m hm y hy with ⟨o, htype⟩ | ⟨hcomplete, hmet⟩
  · exact .inl ⟨o, (Trace.extends hs ht).types htype⟩
  · rw [hstack]
    exact .inr ⟨hcomplete, hmet.imp (Trace.has ht) id⟩

theorem Settles.append {τ : History} {before after : List MemberLayout} {first others : Bool}
    (h : i.Settles τ before first) (h' : i.Settles τ after others) :
    i.Settles τ (before ++ after) (first && others) := by
  intro m hm y hy
  rcases List.mem_append.mp hm with hm | hm
  · refine (h m hm y hy).imp_right fun ⟨hfirst, hmet⟩ => ⟨?_, hmet⟩
    simp_all
  · refine (h' m hm y hy).imp_right fun ⟨hothers, hmet⟩ => ⟨?_, hmet⟩
    simp_all

/-- In the course of adding members, one is left out, as the size of its type is unknown. -/
inductive LeavesOut (resolve : Resolver) (owner : UInt64) (id : StructId) (s : Session)
    (m : MemberLayout) : List MemberLayout → Prop
  | mk (before after : List MemberLayout) {complete : Bool} {y : UInt64} {o : Ordinal}
      {t u : Session} :
      (addMembers resolve owner id before).run.run s = (.ok complete, t) →
      m.typeOffset = some y → (resolve y).run t = (.resolved o, u) → u.host.typeSize? o = none →
      LeavesOut resolve owner id s m (before ++ m :: after)

theorem LeavesOut.cons {owner : UInt64} {id : StructId} {s t : Session} {m first : MemberLayout}
    {members : List MemberLayout} {done : Bool}
    (hrun : (addMember resolve owner id first).run.run s = (.ok done, t))
    (h : LeavesOut resolve owner id t m members) :
    LeavesOut resolve owner id s m (first :: members) := by
  obtain @⟨before, after, complete, y, o, u, v, hbefore, hy, hresolve, hsize⟩ := h
  have hrun' : (addMembers resolve owner id (first :: before)).run.run s =
      (.ok (done && complete), u) := by
    unfold addMembers
    rw [Attempt.run_bind_ok hrun, Attempt.run_bind_ok hbefore]
    rfl
  exact .mk (first :: before) after hrun' hy hresolve hsize

/-- Each member that has a type is there, or was left out. -/
def Stocked (resolve : Resolver) (owner : UInt64) (s : Session) (τ : History) (id : StructId)
    (members : List MemberLayout) : Prop :=
  ∀ m ∈ members, ∀ y, m.typeOffset = some y →
    Named τ id m.name ∨ LeavesOut resolve owner id s m members

theorem tracks_addMembers_stocked (hr : i.Resolves scope resolve) {id : StructId}
    {layout : List MemberLayout} (hf : i.Fills scope σ d id layout) {members : List MemberLayout}
    (hm : members ⊆ layout) :
    Attempt.Tracks i scope σ (addMembers resolve d.offset id members)
      (fun complete τ => i.Settles τ members complete ∧
        (complete = true → Stocked resolve d.offset σ.session τ id members))
      fun _ _ => False := by
  induction members generalizing σ with
  | nil => exact Attempt.tracks_pure ⟨nofun, nofun⟩
  | cons m rest ih =>
    obtain ⟨hmem, hrest⟩ := List.cons_subset.mp hm
    refine Attempt.tracks_bind (tracks_addMember hr hf hmem).run ?_
    rintro first τ htrace hstack ⟨hrun, hattempted⟩
    have hf' := hf.later htrace hstack
    refine Attempt.tracks_bind (ih hf' hrest) fun others υ htrace' hstack' hend => ?_
    obtain ⟨hsettles, hstocked⟩ := hend
    have hsettled : i.Settles υ [m] first :=
      Settles.later hattempted.settles hf'.sound htrace' hstack'
    refine Attempt.tracks_pure ⟨hsettled.append hsettles, fun hcomplete => ?_⟩
    obtain ⟨rfl, rfl⟩ := Bool.and_eq_true_iff.mp hcomplete
    intro m' hm' y hy
    rcases List.mem_cons.mp hm' with rfl | hm'
    · obtain ⟨μ, r, hresolve, o, rfl, -, hnamed | ⟨hsize, -⟩⟩ := hattempted.2 y hy
      · exact .inl (hnamed.later (Trace.extends hf'.sound htrace'))
      · exact .inr (.mk [] rest rfl hy hresolve hsize)
    · exact (hstocked rfl m' hm' y hy).imp_right fun hleft => hleft.cons hrun

theorem tracks_addMembers (hr : i.Resolves scope resolve) {id : StructId}
    {layout : List MemberLayout} (hf : i.Fills scope σ d id layout) {members : List MemberLayout}
    (hm : members ⊆ layout) :
    Attempt.Tracks i scope σ (addMembers resolve d.offset id members)
      (fun complete τ => i.Settles τ members complete) fun _ _ => False :=
  (tracks_addMembers_stocked hr hf hm).imp (fun _ _ _ _ hend => hend.1) fun _ _ h => h

/-- A structure that was made for an entry gets the members of the entry. -/
theorem made_of_settles {id : StructId} {def_ : StructDef} {layout : List MemberLayout}
    (hf : i.Fills scope σ d id layout) (hdef : d.DefinesRecord)
    (hget : σ.session.host.database.structDef? id = some def_) (hkind : d.tag = kindOf def_)
    {τ : History} (ht : i.Trace scope σ τ) {complete : Bool}
    (hsettles : i.Settles τ layout complete) : i.Made τ d id def_.ordinal (!complete) := by
  have he := Trace.extends hf.sound ht
  exact ⟨hdef, (hf.sound.denotes_of_kind hdef hget hkind).mono he,
    Session.Record.mono he ⟨def_, hget, rfl⟩, Trace.makers ht hf.made, layout, hf.reads, hsettles⟩

theorem describes_recordType (hr : i.Resolves scope resolve) (ht : i.Turn σ d)
    (hfresh : σ.Fresh d.offset) (htag : d.tag.isRecord = true) :
    i.Describes scope σ d (i.recordType resolve d) := by
  refine Attempt.tracks_read_bind (fun declaration hdeclaration => ?_) fun _ _ => trivial
  cases declaration with
  | true => exact describes_declaredType ht (.inl htag) hdeclaration
  | false =>
    have hdef : d.DefinesRecord := ⟨htag, hdeclaration⟩
    simp only [Bool.false_eq_true, if_false]
    refine Attempt.tracks_read_bind (fun layout hlayout => ?_) fun _ _ => trivial
    refine Attempt.tracks_bind (tracks_recordFor ht hfresh hdef ⟨layout, hlayout⟩) ?_
    rintro ⟨id, existed⟩ τ htrace hstack hgot
    have ht' := ht.later htrace hstack
    refine Attempt.tracks_ask_bind (fun o ho => ?_) fun _ _ => trivial
    obtain ⟨def_, hget, rfl⟩ := ht'.sound.structOrdinal.mp ho
    cases existed with
    | true =>
      obtain ⟨hfresh', name, k, hname, hreaches, hfind, hdescribes⟩ := hgot
      have hkind := ht'.sound.describesStruct_kind hget hdescribes
      exact Attempt.tracks_pure (.known hdef hfresh' (ht'.sound.denotes_of_kind hdef hget hkind)
        ⟨def_, hget, rfl⟩ hname hreaches hfind hdescribes)
    | false =>
      obtain ⟨hmade, def', hget', hkind⟩ := hgot
      rw [hget] at hget'
      cases hget'
      have hfills : i.Fills scope τ d id layout :=
        Got.fills ht' hdef hlayout ⟨hmade, def_, hget, hkind⟩
      simp only [Bool.false_eq_true, if_false]
      refine Attempt.tracks_bind ((tracks_addMembers hr hfills (List.Subset.refl _)).imp
        (fun _ _ _ _ h => h) fun _ _ _ => trivial) ?_
      exact fun complete υ htrace' _ hsettles =>
        Attempt.tracks_pure (.made (made_of_settles hfills hdef hget hkind htrace' hsettles))

end DebugSymbols.Importer
