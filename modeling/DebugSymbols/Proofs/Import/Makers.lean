import DebugSymbols.Proofs.Import.Records

/-!
The structures that a session makes.  `Attributed` says that each is made for one entry, of which
it has the kind, a name and no other members, and `Founded` that there are no others, which is so in
a session that began with none.  `Change.attributed` and `Change.founded` keep this up.
-/

namespace DebugSymbols

/-- A structure that is made for the entry may get the name. -/
def Die.MayBear (d : Die) (name : String) : Prop :=
  (d.name? = .ok none ∧ ∃ kind n, name = Database.anonymousName kind n) ∨
    ∃ stated k, d.name? = .ok (some stated) ∧ name = underscored k stated

namespace Importer

variable {i : Importer} {scope : Scope} {σ τ : History}

/-- The entry describes the member, and the type of that is there. -/
def Sourced (s : Session) (layout : List MemberLayout) (m : Member) : Prop :=
  ∃ l ∈ layout, l.name = m.name ∧ l.offset = m.offset ∧
    ∃ y o, l.typeOffset = some y ∧ s.TypeAt y o

/-- The structure has the kind of the entry, one of its names, and no members but those of the
entry. -/
structure Depicts (s : Session) (def_ : StructDef) (d : Die) : Prop where
  kind : d.tag = kindOf def_
  name : d.MayBear def_.name
  members : ∃ layout, d.layout = .ok layout ∧ ∀ m ∈ def_.members, Sourced s layout m

/-- What holds of the structures that a session makes. -/
structure Attributed (i : Importer) (σ : History) : Prop where
  unique : ∀ {x y id}, (x, id) ∈ σ.makers → (y, id) ∈ σ.makers → x = y
  made : ∀ {x id}, (x, id) ∈ σ.makers → ∃ d def_, i.info.dieAt x = .ok d ∧
    σ.session.host.database.structDef? id = some def_ ∧ Depicts σ.session def_ d

/-- What holds of the structures of every session that began with none. -/
structure Founded (i : Importer) (σ : History) : Prop extends i.Attributed σ where
  backed : σ.session.host.database.Backed
  maker : ∀ {id def_}, σ.session.host.database.structDef? id = some def_ →
    ∃ x, (x, id) ∈ σ.makers

theorem Depicts.mono {s t : Session} (hlast : ∀ {y o}, s.TypeAt y o → t.TypeAt y o)
    {def_ : StructDef} {d : Die} (h : Depicts s def_ d) : Depicts t def_ d := by
  obtain ⟨layout, hlayout, hmembers⟩ := h.members
  refine ⟨h.kind, h.name, layout, hlayout, fun m hm => ?_⟩
  obtain ⟨l, hl, hname, hoffset, y, o, hy, htype⟩ := hmembers m hm
  exact ⟨l, hl, hname, hoffset, y, o, hy, hlast htype⟩

/-- What a structure lists is listed by the entry. -/
theorem Depicts.listed {s : Session} {def_ : StructDef} {d : Die} (h : Depicts s def_ d) :
    ∃ ps, d.places = .ok ps ∧ (Listing.ofStruct def_).pairs ⊆ ps := by
  obtain ⟨layout, hlayout, hmembers⟩ := h.members
  refine ⟨_, Die.places_of_layout hlayout, fun pair hpair => ?_⟩
  obtain ⟨m, hm, rfl⟩ := List.mem_map.mp hpair
  obtain ⟨l, hl, hname, hoffset, -⟩ := hmembers m hm
  have hkind := h.kind
  unfold kindOf at hkind
  refine List.mem_map.mpr ⟨l, hl, ?_⟩
  simp only [hname, Prod.mk.injEq, true_and]
  split
  · rename_i hunion
    rw [if_pos hunion] at hkind
    exact Die.offset_of_union hkind hlayout hl
  · exact hoffset

/-- A new structure has no members yet. -/
theorem Creates.depicts {s t : Session} {d : Die} {id : StructId} {h : Host}
    (hc : i.Creates s d id h) {name : Option String} {def_ : StructDef} {db db' : Database}
    (hname : d.name? = .ok none ∧ name = none ∨
      ∃ stated k, d.name? = .ok (some stated) ∧ name = some (underscored k stated) ∧
        (i.recordRegistry d).Reaches s stated k)
    (ha : db.AddsStruct name (decide (d.tag = .unionType)) id def_ db') : Depicts t def_ d where
  kind := by
    unfold kindOf
    rw [ha.isUnion]
    rcases isRecord_iff.mp hc.defines.1 with htag | htag <;> simp [htag]
  name := by
    have hnames := ha.names
    rcases hname with ⟨hnone, rfl⟩ | ⟨stated, k, hstated, rfl, -⟩
    · exact .inl ⟨hnone, hnames⟩
    · exact .inr ⟨stated, k, hstated, hnames⟩
  members := by
    obtain ⟨layout, hlayout⟩ := hc.layout
    exact ⟨layout, hlayout, by simp [ha.members]⟩

/-- A member that the entry describes is one of its members. -/
theorem Depicts.insertMember {s : Session} {d : Die} {def_ : StructDef} (h : Depicts s def_ d)
    {layout : List MemberLayout} (hlayout : d.layout = .ok layout) {m : Member}
    (hm : Sourced s layout m) :
    Depicts s { def_ with members := Database.insertMember m def_.members } d := by
  obtain ⟨layout', hlayout', hmembers⟩ := h.members
  rw [hlayout] at hlayout'
  cases hlayout'
  refine ⟨h.kind, h.name, layout, hlayout, fun member hmember => ?_⟩
  rcases Database.mem_insertMember.mp hmember with rfl | hold
  · exact hm
  · exact hmembers member hold

theorem Attributed.of_structs (ha : i.Attributed σ)
    (hstructs : τ.session.host.database.structs = σ.session.host.database.structs)
    (hmakers : τ.makers = σ.makers)
    (hlast : ∀ {y o}, σ.session.TypeAt y o → τ.session.TypeAt y o) : i.Attributed τ := by
  refine ⟨fun hx hy => ?_, fun {x id} hx => ?_⟩
  · rw [hmakers] at hx hy
    exact ha.unique hx hy
  · rw [hmakers] at hx
    obtain ⟨d, def_, hat, hget, hdepicts⟩ := ha.made hx
    refine ⟨d, def_, hat, ?_, hdepicts.mono hlast⟩
    rw [Database.structDef?, hstructs]
    exact hget

/-- The handle of a new structure was not given away before. -/
theorem Attributed.not_mem_makers (ha : i.Attributed σ) {id : StructId} {def_ : StructDef}
    {name : Option String} {isUnion : Bool} {db' : Database}
    (hadds : σ.session.host.database.AddsStruct name isUnion id def_ db') (x : UInt64) :
    (x, id) ∉ σ.makers := by
  intro hmade
  obtain ⟨d, def', -, hget, -⟩ := ha.made hmade
  rw [hadds.id, Database.structDef?] at hget
  simp at hget

theorem Attributed.create (hs : i.Sound σ) (ha : i.Attributed σ) {d : Die} {id : StructId}
    {h : Host} (hcreates : i.Creates σ.session d id h)
    (hlast : ∀ {y o}, σ.session.TypeAt y o → ({ σ.session with host := h } : Session).TypeAt y o) :
    i.Attributed ⟨{ σ.session with host := h }, (d.offset, id) :: σ.makers⟩ := by
  obtain ⟨name, hadd, hname⟩ := hcreates.added
  obtain ⟨db, hdb, rfl⟩ := Host.addStruct?_eq_some hadd
  obtain ⟨def_, hadds⟩ := Database.addsStruct hs.coherent hdb
  have hnew := ha.not_mem_makers hadds
  refine ⟨fun {x y id'} hx hy => ?_, fun {x id'} hx => ?_⟩
  · rcases List.mem_cons.mp hx with hx | hx <;> rcases List.mem_cons.mp hy with hy | hy
    · cases hx
      cases hy
      rfl
    · cases hx
      exact absurd hy (hnew y)
    · cases hy
      exact absurd hx (hnew x)
    · exact ha.unique hx hy
  · simp only [hadds.structDef?]
    rcases List.mem_cons.mp hx with hx | hx
    · cases hx
      exact ⟨d, def_, hcreates.at_, if_pos rfl, hcreates.depicts hname hadds⟩
    · have hne : id' ≠ id := fun heq => hnew x (heq ▸ hx)
      rw [if_neg hne]
      obtain ⟨d', def', hat, hget, hdepicts⟩ := ha.made hx
      exact ⟨d', def', hat, hget, hdepicts.mono hlast⟩

theorem Attributed.attach (ha : i.Attributed σ) {d : Die} {id : StructId} {m : Member} {h : Host}
    (hattaches : i.Attaches σ d id m h)
    (hlast : ∀ {y o}, σ.session.TypeAt y o → ({ σ.session with host := h } : Session).TypeAt y o) :
    i.Attributed { σ with session := { σ.session with host := h } } := by
  obtain ⟨db, hdb, rfl⟩ := Host.addStructMember?_eq_some hattaches.added
  obtain ⟨def_, hadds⟩ := Database.addsMember hdb
  refine ⟨ha.unique, fun {x id'} hx => ?_⟩
  obtain ⟨d', def', hat, hget, hdepicts⟩ := ha.made hx
  replace hdepicts := hdepicts.mono hlast
  refine ⟨d', ?_⟩
  simp only [hadds.structDef?]
  split
  · rename_i heq
    subst heq
    cases ha.unique hx hattaches.made
    cases hattaches.at_.symm.trans hat
    cases hadds.known.symm.trans hget
    obtain ⟨layout, hlayout, l, hl, y, o, hy, htype, type, size, -, rfl⟩ := hattaches.described
    exact ⟨_, hattaches.at_, rfl,
      hdepicts.insertMember hlayout ⟨l, hl, rfl, rfl, y, o, hy, hlast htype⟩⟩
  · exact ⟨def', hat, hget, hdepicts⟩

theorem Change.attributed (hs : i.Sound σ) (ha : i.Attributed σ) (hc : i.Change scope σ τ) :
    i.Attributed τ := by
  have he := hc.extends hs
  cases hc with
  | note | dismiss | place | enter | leave | clear => exact ha.of_structs rfl rfl he.types
  | grow hgrows => exact ha.of_structs hgrows.structs rfl he.types
  | create hhead hfresh hcreates => exact ha.create hs hcreates he.types
  | attach hfill hattaches => exact ha.attach hattaches he.types

theorem Trace.attributed (hs : i.Sound σ) (ha : i.Attributed σ) (ht : i.Trace scope σ τ) :
    i.Attributed τ := by
  induction ht with
  | refl => exact ha
  | tail ht hc ih => exact hc.attributed (Trace.sound hs ht) ih

theorem Change.founded (hs : i.Sound σ) (hf : i.Founded σ) (hc : i.Change scope σ τ) :
    i.Founded τ := by
  have ha := hc.attributed hs hf.toAttributed
  cases hc with
  | note | dismiss | place | enter | leave | clear => exact ⟨ha, hf.backed, hf.maker⟩
  | grow hgrows =>
    refine ⟨ha, hgrows.backed hf.backed, fun hget => ?_⟩
    rw [Database.structDef?, hgrows.structs] at hget
    exact hf.maker hget
  | @create d id h hhead hfresh hcreates =>
    obtain ⟨name, hadd, -⟩ := hcreates.added
    obtain ⟨db, hdb, rfl⟩ := Host.addStruct?_eq_some hadd
    obtain ⟨def_, hadds⟩ := Database.addsStruct hs.coherent hdb
    refine ⟨ha, hadds.backed hf.backed, fun {id' def'} hget => ?_⟩
    rw [hadds.structDef?] at hget
    split at hget
    · rename_i heq
      exact ⟨d.offset, by simp [heq]⟩
    · obtain ⟨x, hx⟩ := hf.maker hget
      exact ⟨x, List.mem_cons_of_mem _ hx⟩
  | @attach d id m h hfill hattaches =>
    obtain ⟨db, hdb, rfl⟩ := Host.addStructMember?_eq_some hattaches.added
    obtain ⟨def_, hadds⟩ := Database.addsMember hdb
    refine ⟨ha, hadds.backed hf.backed, fun {id' def'} hget => ?_⟩
    rw [hadds.structDef?] at hget
    split at hget
    · rename_i heq
      exact ⟨d.offset, heq ▸ hattaches.made⟩
    · exact hf.maker hget

theorem Trace.founded (hs : i.Sound σ) (hf : i.Founded σ) (ht : i.Trace scope σ τ) :
    i.Founded τ := by
  induction ht with
  | refl => exact hf
  | tail ht hc ih => exact hc.founded (Trace.sound hs ht) ih

/-- A session that begins has made no structures. -/
theorem attributed_start (s : Session) : i.Attributed ⟨s, []⟩ where
  unique hx := by cases hx
  made hx := by cases hx

theorem founded_start (pointerSize : UInt64) :
    i.Founded ⟨newSession (Host.ofDatabase (.empty pointerSize)), []⟩ where
  toAttributed := attributed_start _
  backed := Database.backed_empty pointerSize
  maker {id def_} hget := by
    have hempty : (Database.empty pointerSize).structDef? id = some def_ := hget
    simp [Database.structDef?, Database.empty] at hempty

/-- What a structure describes is of the kind of the entry that it was made for, and has no other
members. -/
theorem Founded.includes (hs : i.Sound σ) (hf : i.Founded σ) {y : UInt64} {c x : Die}
    {id : StructId} (hmade : (y, id) ∈ σ.makers) (hat : i.info.dieAt y = .ok c)
    (hd : i.describesStruct σ.session id x = .ok true) : c.Includes x := by
  obtain ⟨c', def_, hat', hget, hdepicts⟩ := hf.made hmade
  rw [hat] at hat'
  cases hat'
  rw [hs.describesStruct_eq hget] at hd
  split at hd
  · rename_i z horigin
    obtain ⟨d, id', hat', -, -, hmade', def', hget', hordinal⟩ := hs.pendingOrigin horigin
    cases hs.coherent.struct_eq hget' hget hordinal
    cases hf.unique hmade' hmade
    rw [hat] at hat'
    cases hat'
    rw [hat] at hd
    exact (of_sameLayout hd).1
  · obtain ⟨htag, qs, hqs, -, hsub⟩ := of_describesRecord (by rwa [hs.structDef?]) hd
    obtain ⟨ps, hps, hsub'⟩ := hdepicts.listed
    exact ⟨hdepicts.kind.trans htag.symm, ps, qs, hps, hqs, List.Subset.trans hsub hsub'⟩

end Importer

end DebugSymbols
