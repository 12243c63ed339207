import DebugSymbols.Proofs.Database.Sizes
import DebugSymbols.Proofs.Import.Commands

/-!
Sizes of members.  A member gets the size that its type has when the member is added, and keeps
it.  So whether the size is right in the end is a matter of the order in which members were added
(`Sized`).
-/

namespace DebugSymbols

open Importer

namespace Database

/-- The members of all structures in the order in which they were added.  Each has the size that
its type had when only the members before it were there. -/
structure Sized (db : Database) (added : List Addition) : Prop where
  nodup : added.Nodup
  lists : ∀ id m, (id, m) ∈ added ↔ ∃ d, db.structDef? id = some d ∧ m ∈ d.members
  sizes : ∀ before id m after, added = before ++ (id, m) :: after →
    ∃ o, (db.keeping before).linkOrdinal? m.type = some o ∧
      (db.keeping before).typeSize? o = some m.size

/-- Every member has the size of its type. -/
def SizesAgree (db : Database) : Prop :=
  ∀ id d, db.structDef? id = some d → ∀ m ∈ d.members,
    ∃ o, db.linkOrdinal? m.type = some o ∧ db.typeSize? o = some m.size

/-- The structure has the size that it had when only the listed members were there. -/
def SameSize (db : Database) (kept : List Addition) (id : StructId) : Prop :=
  ((db.keeping kept).structDef? id).map StructDef.size = (db.structDef? id).map StructDef.size

/-- Growth that adds no member. -/
theorem Sized.extends {db db' : Database} {added : List Addition} (h : Sized db added)
    (he : Extends db db')
    (hlists : ∀ id m, (∃ d, db'.structDef? id = some d ∧ m ∈ d.members) ↔
      ∃ d, db.structDef? id = some d ∧ m ∈ d.members)
    (hm : ∀ {id d d'}, db.structDef? id = some d → db'.structDef? id = some d' →
      d'.members = d.members) : Sized db' added where
  nodup := h.nodup
  lists id m := (h.lists id m).trans (hlists id m).symm
  sizes before id m after hadded := by
    obtain ⟨o, ho, hsize⟩ := h.sizes before id m after hadded
    have hp : Preserves (db.keeping before) (db'.keeping before) :=
      he.preserves_keeping fun hd hd' => by rw [hm hd hd']
    exact ⟨o, hp.linkOrdinal? ho, hp.sizeWithin hsize⟩

theorem sized_of_structs {db : Database} (h : db.structs = #[]) : Sized db [] where
  nodup := .nil
  lists id m := by simp [structDef?, h]
  sizes before id m after hadded := by simp at hadded

theorem Sized.addStruct {db db' : Database} {added : List Addition} {name : Option String}
    {isUnion : Bool} {id : StructId} {d : StructDef} (h : Sized db added)
    (ha : AddsStruct db name isUnion id d db') : Sized db' added := by
  have hnone : db.structDef? id = none := by
    rw [ha.id]
    simp [structDef?]
  refine h.extends ha.extends_ (fun id' m => ?_) fun {id' d₁ d₂} hd hd' => ?_
  · rw [ha.structDef?]
    split
    · rename_i hid
      subst hid
      simp [hnone, ha.members]
    · rfl
  · rw [ha.structDef?] at hd'
    split at hd'
    · rename_i hid
      rw [hid, hnone] at hd
      cases hd
    · rw [hd] at hd'
      cases hd'
      rfl

theorem filter_insertMember {m : Member} {p : Member → Bool} (hm : p m = false)
    (members : List Member) : (insertMember m members).filter p = members.filter p := by
  unfold insertMember
  rw [List.filter_append, List.filter_cons_of_neg (by simp [hm]), ← List.filter_append,
    List.takeWhile_append_dropWhile]

/-- A member that does not count changes nothing about sizes. -/
theorem AddsMember.preserves_keeping {db db' : Database} {id : StructId} {m : Member}
    {d : StructDef} (ha : AddsMember db id m d db') {kept : List Addition}
    (hkept : (id, m) ∉ kept) : Preserves (db.keeping kept) (db'.keeping kept) := by
  refine ha.extends.preserves_keeping fun {id' d₁ d₂} hd hd' => ?_
  rw [ha.structDef?] at hd'
  split at hd'
  · rename_i hid
    subst hid
    rw [ha.known] at hd
    cases hd
    cases hd'
    exact filter_insertMember (by simp [hkept]) _
  · rw [hd] at hd'
    cases hd'
    rfl

/-- Nothing is lost if all members are kept. -/
theorem preserves_keeping_all {db : Database} {kept : List Addition}
    (hall : ∀ {id d}, db.structDef? id = some d → ∀ m ∈ d.members, (id, m) ∈ kept) :
    Preserves db (db.keeping kept) where
  pointerSize := rfl
  types ht := ⟨_, ht, .refl _⟩
  named hn := hn
  structs {id d} hd := by
    have hfilter : (d.members.filter fun m => decide ((id, m) ∈ kept)) = d.members :=
      List.filter_eq_self.mpr fun m hm => decide_eq_true (hall hd m hm)
    refine ⟨d, ?_, rfl, rfl⟩
    rw [structDef?_keeping, hd, Option.map_some, hfilter]
  enums hd := ⟨_, hd⟩

/-- The member that was added last has the size that its type had before. -/
theorem Sized.addMember {db db' : Database} {added : List Addition} {id : StructId} {m : Member}
    {d : StructDef} (h : Sized db added) (ha : AddsMember db id m d db') {o : Ordinal}
    (ho : db.linkOrdinal? m.type = some o) (hsize : db.typeSize? o = some m.size) :
    Sized db' (added ++ [(id, m)]) := by
  have hfresh : (id, m) ∉ added := by
    rw [h.lists]
    rintro ⟨d', hd', hmem⟩
    rw [ha.known] at hd'
    cases hd'
    exact ha.fresh m hmem rfl
  refine ⟨?_, fun id' m' => ?_, fun before id' m' after hadded => ?_⟩
  · exact List.nodup_append.mpr ⟨h.nodup, List.nodup_singleton _, by
      rintro a ha' b hb rfl
      rw [List.mem_singleton.mp hb] at ha'
      exact hfresh ha'⟩
  · rw [List.mem_append, List.mem_singleton, h.lists, ha.structDef?]
    split
    · rename_i hid
      subst hid
      simp only [ha.known, Option.some.injEq, exists_eq_left', mem_insertMember, Prod.mk.injEq,
        true_and]
      exact or_comm
    · rename_i hid
      simp [hid]
  · rcases List.eq_nil_or_concat after with rfl | ⟨rest, last, rfl⟩
    · obtain ⟨rfl, hlast⟩ := List.append_inj' hadded rfl
      cases hlast
      have hall : Preserves db (db.keeping added) :=
        preserves_keeping_all fun {id' d'} hd m' hm' => (h.lists id' m').mpr ⟨d', hd, hm'⟩
      have hp := ha.preserves_keeping hfresh
      exact ⟨o, hp.linkOrdinal? (hall.linkOrdinal? ho), hp.sizeWithin (hall.sizeWithin hsize)⟩
    · have hsplit : added ++ [(id, m)] = (before ++ (id', m') :: rest) ++ [last] := by
        simpa using hadded
      obtain ⟨hadded', -⟩ := List.append_inj' hsplit rfl
      obtain ⟨o', ho', hsize'⟩ := h.sizes before id' m' rest hadded'
      have hnot : (id, m) ∉ before := fun hmem => hfresh (by rw [hadded']; simp [hmem])
      have hp := ha.preserves_keeping hnot
      exact ⟨o', hp.linkOrdinal? ho', hp.sizeWithin hsize'⟩

/-! ## The order of additions -/

/-- A member has the size of its type if and only if the structure that this depends on has not
grown since the member was added. -/
theorem Sized.size_iff {db : Database} {added : List Addition} (h : Sized db added)
    {before after : List Addition} {id : StructId} {m : Member}
    (hadded : added = before ++ (id, m) :: after) :
    ∃ o, db.linkOrdinal? m.type = some o ∧
      (db.typeSize? o = some m.size ↔ ∀ r, db.recordOf? o = some r → db.SameSize before r) := by
  obtain ⟨o, ho, hsize⟩ := h.sizes before id m after hadded
  rw [linkOrdinal?_keeping] at ho
  exact ⟨o, ho, sizeWithin_keeping_iff db before hsize⟩

theorem Sized.sizesAgree_iff {db : Database} {added : List Addition} (h : Sized db added) :
    db.SizesAgree ↔ ∀ before id m after, added = before ++ (id, m) :: after →
      ∀ o r, db.linkOrdinal? m.type = some o → db.recordOf? o = some r → db.SameSize before r := by
  constructor
  · intro hagree before id m after hadded o r ho hr
    obtain ⟨d, hd, hm⟩ := (h.lists id m).mp (by simp [hadded])
    obtain ⟨o', ho', hsize⟩ := hagree id d hd m hm
    obtain ⟨o'', ho'', hiff⟩ := h.size_iff hadded
    rw [ho] at ho' ho''
    cases ho'
    cases ho''
    exact hiff.mp hsize r hr
  · intro hsame id d hd m hm
    obtain ⟨before, after, hadded⟩ := List.append_of_mem ((h.lists id m).mpr ⟨d, hd, hm⟩)
    obtain ⟨o, ho, hiff⟩ := h.size_iff hadded
    exact ⟨o, ho, hiff.mpr fun r hr => hsame before id m after hadded o r ho hr⟩

end Database

namespace Importer

variable {i : Importer} {scope : Scope} {σ τ : History}

/-- What a link refers to, and its size. -/
theorem Sound.linkOrdinal? (hs : i.Sound σ) (hb : σ.session.host.database.Backed) {o : Ordinal}
    {type : TypeLink} {size : UInt64} (h : σ.session.sizedLinkTo o = .ok (type, size)) :
    σ.session.host.database.linkOrdinal? type = some o ∧
      σ.session.host.database.typeSize? o = some size := by
  obtain ⟨link, hlink, h⟩ := Except.bind_eq_ok h
  split at h
  · rename_i n hn
    cases h
    rw [Host.typeSize?, hs.accepts] at hn
    refine ⟨?_, hn⟩
    unfold Session.linkTo at hlink
    rw [hs.numberedType?] at hlink
    split at hlink
    · rename_i id hget
      cases hlink
      obtain ⟨d, hd, rfl⟩ := hb.enums hget rfl
      exact Option.map_eq_some_iff.mpr ⟨d, hd, rfl⟩
    · rename_i id hget
      cases hlink
      obtain ⟨d, hd, rfl⟩ := hb.structs hget (.inl rfl)
      exact Option.map_eq_some_iff.mpr ⟨d, hd, rfl⟩
    · rename_i id hget
      cases hlink
      obtain ⟨d, hd, rfl⟩ := hb.structs hget (.inr rfl)
      exact Option.map_eq_some_iff.mpr ⟨d, hd, rfl⟩
    · cases hlink
      rfl
    · cases hlink
  · cases h

theorem Change.backed (hs : i.Sound σ) (hc : i.Change scope σ τ)
    (hb : σ.session.host.database.Backed) : τ.session.host.database.Backed := by
  cases hc with
  | grow hgrows => exact hgrows.backed hb
  | create hhead _ hcreates =>
    obtain ⟨name, hadd, -⟩ := hcreates.added
    obtain ⟨db, hdb, rfl⟩ := Host.addStruct?_eq_some hadd
    obtain ⟨d, ha⟩ := Database.addsStruct hs.coherent hdb
    exact ha.backed hb
  | attach _ hattaches =>
    obtain ⟨db, hdb, rfl⟩ := Host.addStructMember?_eq_some hattaches.added
    obtain ⟨d, ha⟩ := Database.addsMember hdb
    exact ha.backed hb
  | note | dismiss | place | enter | leave | clear => exact hb

theorem Change.sized (hs : i.Sound σ) (hb : σ.session.host.database.Backed)
    (hc : i.Change scope σ τ) {added : List Addition}
    (h : σ.session.host.database.Sized added) :
    ∃ more, τ.session.host.database.Sized (added ++ more) := by
  cases hc with
  | note | dismiss | place | enter | leave | clear => exact ⟨[], by simpa using h⟩
  | @grow host hgrows =>
    refine ⟨[], ?_⟩
    rw [List.append_nil]
    have hsame (id : StructId) :
        host.database.structDef? id = σ.session.host.database.structDef? id := by
      rw [Database.structDef?, hgrows.structs, Database.structDef?]
    refine h.extends hgrows.extends_.database (fun id m => ?_) fun {id d d'} hd hd' => ?_
    · rw [hsame]
    · rw [hsame, hd] at hd'
      cases hd'
      rfl
  | create hhead _ hcreates =>
    obtain ⟨name, hadd, -⟩ := hcreates.added
    obtain ⟨db, hdb, rfl⟩ := Host.addStruct?_eq_some hadd
    obtain ⟨d, ha⟩ := Database.addsStruct hs.coherent hdb
    exact ⟨[], by simpa using h.addStruct ha⟩
  | @attach d id m host _ hattaches =>
    obtain ⟨layout, -, l, -, y, o, -, -, type, size, hsized, rfl⟩ := hattaches.described
    obtain ⟨ho, hsize⟩ := hs.linkOrdinal? hb hsized
    obtain ⟨db, hdb, rfl⟩ := Host.addStructMember?_eq_some hattaches.added
    obtain ⟨d, ha⟩ := Database.addsMember hdb
    exact ⟨_, h.addMember ha ho hsize⟩

theorem Trace.sized (hs : i.Sound σ) (ht : i.Trace scope σ τ) (hb : σ.session.host.database.Backed)
    {added : List Addition} (h : σ.session.host.database.Sized added) :
    τ.session.host.database.Backed ∧
      ∃ more, τ.session.host.database.Sized (added ++ more) := by
  induction ht with
  | refl => exact ⟨hb, [], by simpa using h⟩
  | tail ht hc ih =>
    obtain ⟨hb', more, h'⟩ := ih
    have hs' := Trace.sound hs ht
    obtain ⟨more', h''⟩ := hc.sized hs' hb' h'
    exact ⟨hc.backed hs' hb', more ++ more', by simpa using h''⟩

end Importer

/-- After an import into a new database a member has the size of its type if and only if the
structure that this depends on, if any, has not grown since the member was added.  Members that
are there after the first pass were added first. -/
theorem memberSize_eq_iff {sections : Sections} {config : Config} {pointerSize : UInt64} {h : Host}
    {s : Session} (hsize : sections.entries.size < UInt64.size)
    (himport : importSections sections config (Host.ofDatabase (.empty pointerSize)) = .ok (h, s)) :
    ∃ info first second, DebugInfo.decode sections = .ok info ∧
      ((Importer.mk info config).performAll [.runTypes]
        (newSession (Host.ofDatabase (.empty pointerSize)))).host.database.Sized first ∧
      h.database.Sized (first ++ second) ∧
      (∀ before id m after, first ++ second = before ++ (id, m) :: after →
        ∃ o, h.database.linkOrdinal? m.type = some o ∧
          (h.database.typeSize? o = some m.size ↔
            ∀ r, h.database.recordOf? o = some r → h.database.SameSize before r)) ∧
      (h.database.SizesAgree ↔
        ∀ before id m after, first ++ second = before ++ (id, m) :: after →
          ∀ o r, h.database.linkOrdinal? m.type = some o → h.database.recordOf? o = some r →
            h.database.SameSize before r) := by
  obtain ⟨info, start, hdecode, -, hresume, hs, rfl⟩ := importSections_eq_ok.mp himport
  have hstart : start = newSession (Host.ofDatabase (.empty pointerSize)) := by
    cases hresume
    rfl
  subst hstart
  have hi := DebugInfo.indexed_of_decode hdecode hsize
  have hidle : (Importer.mk info config).Idle
      ⟨newSession (Host.ofDatabase (.empty pointerSize)), []⟩ := idle_start pointerSize []
  obtain ⟨σ, htrace, hσ, hidle'⟩ := trace_performAll hi hidle [.runTypes]
  obtain ⟨τ, htrace', hτ, hidle''⟩ := trace_performAll hi hidle' [.runSecondPass, .runFrames]
  obtain ⟨hbacked, first, hfirst⟩ :=
    Trace.sized hidle.sound htrace (Database.backed_empty pointerSize)
      (Database.sized_of_structs rfl)
  obtain ⟨-, second, hsecond⟩ := Trace.sized hidle'.sound htrace' hbacked hfirst
  rw [List.nil_append] at hfirst hsecond
  have hsession : s = τ.session := by
    rw [hs, hτ, hσ, ← performAll_append]
    rfl
  have hsame := sameTypes_finish (Importer.mk info config) s
  have hall : ((Importer.mk info config).finish s).database.Sized (first ++ second) := by
    rw [← hsession] at hsecond
    have hstructs (id : StructId) : ((Importer.mk info config).finish s).database.structDef? id =
        s.host.database.structDef? id := by
      rw [Database.structDef?, hsame.structs, Database.structDef?]
    refine hsecond.extends hsame.extends.database (fun id m => by rw [hstructs]) ?_
    intro id d d' hd hd'
    rw [hstructs, hd] at hd'
    cases hd'
    rfl
  rw [hσ] at hfirst
  exact ⟨info, first, second, hdecode, hfirst, hall, fun _ _ _ _ hadded => hall.size_iff hadded,
    hall.sizesAgree_iff⟩

/-- A structure `A` with a member `b`, which is a structure `B` with a pointer to `A`. -/
def embedding : Sections := .inPlace
  ⟨#[1, 17, 1, 0, 0, 2, 19, 1, 3, 8, 0, 0, 3, 13, 0, 3, 8, 73, 19, 56, 11, 0, 0, 4, 15, 0, 73, 19,
    0, 0, 0]⟩
  ⟨#[38, 0, 0, 0, 4, 0, 0, 0, 0, 0, 4, 1, 2, 65, 0, 3, 98, 0, 24, 0, 0, 0, 0, 0, 2, 66, 0, 3, 112,
    0, 36, 0, 0, 0, 0, 0, 4, 12, 0, 0, 0, 0]⟩

/-- `b` is added while `B` lacks its pointer, so its size is zero, although `B` has four bytes. -/
theorem memberSize_eq_iff_embedding :
    ∃ h s, importSections embedding {} (Host.ofDatabase (.empty 4)) = .ok (h, s) ∧
      embedding.entries.size < UInt64.size ∧
      (h.database.structDef? ⟨0⟩).map (·.members) = some [⟨"b", 0, 0, .struct ⟨1⟩⟩] ∧
      h.database.linkOrdinal? (.struct ⟨1⟩) = some ⟨2⟩ ∧
      h.database.typeSize? ⟨2⟩ = some 4 ∧ ¬ h.database.SizesAgree ∧
      ∃ before id m after o r, h.database.Sized (before ++ (id, m) :: after) ∧
        h.database.linkOrdinal? m.type = some o ∧ h.database.recordOf? o = some r ∧
        ¬ h.database.SameSize before r := by
  have hsize : embedding.entries.size < UInt64.size := by decide
  have hrun : (importSections embedding {} (Host.ofDatabase (.empty 4))).toOption.any (fun r =>
      decide ((r.1.database.structDef? ⟨0⟩).map (·.members) = some [⟨"b", 0, 0, .struct ⟨1⟩⟩] ∧
        r.1.database.linkOrdinal? (.struct ⟨1⟩) = some ⟨2⟩ ∧
        r.1.database.typeSize? ⟨2⟩ = some 4)) = true := by
    decide +kernel
  obtain ⟨⟨h, s⟩, himport, hrun⟩ := Except.of_any_toOption hrun
  obtain ⟨hmembers, hlink, htype⟩ := of_decide_eq_true hrun
  have hdisagree : ¬ h.database.SizesAgree := by
    intro hagree
    obtain ⟨d, hd, hm⟩ := Option.map_eq_some_iff.mp hmembers
    obtain ⟨o, ho, hsize'⟩ := hagree ⟨0⟩ d hd ⟨"b", 0, 0, .struct ⟨1⟩⟩ (by simp [hm])
    rw [hlink] at ho
    cases ho
    rw [htype] at hsize'
    cases hsize'
  obtain ⟨info, first, second, -, -, hsized, -, hiff⟩ := memberSize_eq_iff hsize himport
  have hgrown := mt hiff.mpr hdisagree
  push Not at hgrown
  obtain ⟨before, id, m, after, hadded, o, r, ho, hr, hgrown⟩ := hgrown
  rw [hadded] at hsized
  exact ⟨h, s, himport, hsize, hmembers, hlink, htype, hdisagree, before, id, m, after, o, r,
    hsized, ho, hr, hgrown⟩

end DebugSymbols
