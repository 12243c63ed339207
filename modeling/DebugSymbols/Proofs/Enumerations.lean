import DebugSymbols.Proofs.Database.Tables
import DebugSymbols.Proofs.Import.Commands

/-!
Which definitions of enumerations share a type.  An entry with a name has the first of its names
that is not barred for its constants, and bars stay, so entries of one name with the same constants
have one type (`named_enum_ordinal_eq`).  Entries without a name are looked up by their first
constant, and share a type just if the first enumeration that defines it has all of their
constants and no others (`unnamed_enum_ordinal_eq_iff`).
-/

namespace DebugSymbols

open Importer

/-! ## Databases whose enumerations come from calls -/

namespace Database

variable {db db' : Database}

theorem EnumsBacked.of_types (hb : db.EnumsBacked) (he : db.Extends db')
    (ht : ∀ {o t id}, db'.numberedType? o = some t → t.shape = .enum id →
      db.numberedType? o = some t) : db'.EnumsBacked := by
  intro o t id hget hshape
  obtain ⟨d, hd, ho⟩ := hb o t id (ht hget hshape) hshape
  obtain ⟨constants, hd'⟩ := he.enums hd
  exact ⟨_, hd', ho⟩

theorem EnumsBacked.of_eq (hb : db.EnumsBacked) (he : db.Extends db') (ht : db'.types = db.types) :
    db'.EnumsBacked :=
  hb.of_types he fun hget _ => by rwa [← numberedType?_congr ht]

theorem EnumOf.congr {ps qs : List (String × UInt64)} (hps : (Listing.names ps).Nodup)
    (hqs : (Listing.names qs).Nodup) (h : ∀ pair, pair ∈ ps ↔ pair ∈ qs) (o : Ordinal) :
    db.EnumOf o ps ↔ db.EnumOf o qs := by
  have hmap : Listing.lastValue? (.complete ps : Listing).pairs =
      Listing.lastValue? (.complete qs : Listing).pairs := Listing.lastValue?_congr hps hqs h
  have hagrees (e : EnumDef) : (Listing.ofEnum e).agrees (.complete ps) = .ok true ↔
      (Listing.ofEnum e).agrees (.complete qs) = .ok true := by
    rw [Listing.agrees_iff rfl, Listing.agrees_iff rfl, hmap]
    exact and_congr_right fun _ => and_congr_left fun _ => iff_of_true hps hqs
  simp only [EnumOf, hagrees]

/-- Enumerations of the same constants that each have the first of the names that is not barred for
them are one. -/
theorem EnumOf.ordinal_eq {ps qs : List (String × UInt64)} {stated : String} {o o' : Ordinal}
    {k l : Nat} (hc : db.Coherent) (hsame : ∀ o, db.EnumOf o ps ↔ db.EnumOf o qs)
    (ho : db.EnumOf o ps) (ho' : db.EnumOf o' qs)
    (hnamed : db.namedType? (underscored k stated) = some o)
    (hnamed' : db.namedType? (underscored l stated) = some o')
    (hbars : ∀ j < k, db.BarsEnum ps (underscored j stated))
    (hbars' : ∀ j < l, db.BarsEnum qs (underscored j stated)) : o = o' := by
  rcases Nat.lt_trichotomy k l with hlt | rfl | hgt
  · exact absurd ((hsame o).mp ho) ((hbars' k hlt).not_enumOf hc hnamed)
  · exact Option.some.inj (hnamed.symm.trans hnamed')
  · exact absurd ((hsame o').mpr ho') ((hbars l hgt).not_enumOf hc hnamed')

end Database

namespace Host

theorem Alters.enumsBacked {h h' : Host} {c : Call} (ha : h.Alters c h')
    (hc : h.database.Coherent) (hb : h.database.EnumsBacked)
    (hcall : ∀ name id, c ≠ .addNamedType name (.enum id)) : h'.database.EnumsBacked := by
  cases ha with
  | namedType hadd =>
    have he := (extends_addNamedType? hadd).database
    obtain ⟨db, hdb, rfl⟩ := addNamedType?_eq_some hadd
    obtain ⟨-, rfl, rfl⟩ := Database.addNamedType?_eq_some hdb
    refine hb.of_types he fun {o' t id} hget hshape => ?_
    rw [Database.numberedType?_push rfl] at hget
    split at hget
    · cases hget
      cases hshape
      exact absurd rfl (hcall _ id)
    · exact hget
  | @enum _ _ id _ hadd =>
    obtain ⟨db, hdb, rfl⟩ := addEnum?_eq_some hadd
    obtain ⟨d, hadds⟩ := Database.addsEnum hc hdb
    have hget : db.enumDef? id = some { d with constants := d.constants } := by
      rw [hadds.enumDef?, if_pos rfl]
    have hdistinct : (Listing.names d.constants).Nodup := by simp [hadds.constants, Listing.names]
    exact (hadds.retains hget hdistinct (fun _ _ => rfl) fun _ => rfl).backed hb
  | constant hadd =>
    have he := (extends_addEnumConstant? hadd).database
    obtain ⟨db, hdb, rfl⟩ := addEnumConstant?_eq_some hadd
    obtain ⟨d, hadds⟩ := Database.addsConstant hdb
    exact hb.of_eq he (by rw [hadds.eq])
  | struct hadd =>
    obtain ⟨db, hdb, rfl⟩ := addStruct?_eq_some hadd
    obtain ⟨d, hadds⟩ := Database.addsStruct hc hdb
    exact hadds.retains.backed hb
  | member hadd =>
    obtain ⟨db, hdb, rfl⟩ := addStructMember?_eq_some hadd
    obtain ⟨d, hadds⟩ := Database.addsMember hdb
    exact hadds.retains.backed hb
  | nothing hsame => exact (Database.retains_of_sameTypes hsame).backed hb

theorem enumsBacked_built (pointerSize : UInt64) {calls : List Call}
    (hcalls : ∀ name id, Call.addNamedType name (.enum id) ∉ calls) :
    (built pointerSize calls).database.EnumsBacked := by
  have hall (h : Host) (hc : h.database.Coherent) (hb : h.database.EnumsBacked) :
      (h.performAll calls).database.EnumsBacked := by
    induction calls generalizing h with
    | nil => exact hb
    | cons c rest ih =>
      refine ih (fun name id hmem => hcalls name id (List.mem_cons_of_mem _ hmem)) _
        ((extends_perform hc c).coherent hc) ((alters_perform h c).enumsBacked hc hb ?_)
      rintro name id rfl
      exact hcalls name id List.mem_cons_self
  refine hall (Host.ofDatabase (.empty pointerSize)) (Database.coherent_empty pointerSize) ?_
  exact fun o t id hget hshape => (Database.backed_empty pointerSize).enums hget hshape

/-- The constants of an enumeration that comes from calls have different names. -/
theorem nodup_built {pointerSize : UInt64} {calls : List Call} {id : EnumId} {d : EnumDef}
    (hd : (built pointerSize calls).database.enumDef? id = some d) :
    (Listing.names d.constants).Nodup :=
  (nodup_performAll (h := ofDatabase (.empty pointerSize)) (Database.coherent_empty pointerSize)
    calls (fun _ => .nil) (fun _ => .nil) fun _ => .nil).constants id d hd

end Host

namespace Importer

variable {i : Importer} {scope : Scope} {σ τ : History}

/-! ## Enumerations along traces -/

/-- An enumeration with just the constants of a list has these as its own. -/
theorem Trace.constants_perm {pointerSize : UInt64} {calls : List Call}
    (hs : i.Sound ⟨newSession (Host.built pointerSize calls), []⟩)
    (ht : i.Trace scope ⟨newSession (Host.built pointerSize calls), []⟩ τ) {id : EnumId}
    {d : EnumDef} (hd : τ.session.host.database.enumDef? id = some d)
    (ps : List (String × UInt64)) :
    (Listing.ofEnum d).agrees (.complete ps) = .ok true ↔ d.constants.Perm ps :=
  Listing.agrees_iff_perm (((Trace.retains hs ht).distinct hd).elim Host.nodup_built fun h => h)

/-- An entry that defines an enumeration and is found to be a type has its enumeration. -/
theorem Finding.counts {d : Die} {o : Ordinal} {pending : Bool} {ps : List (String × UInt64)}
    (h : i.Finding σ d (.type o pending)) (hd : d.Enumerates ps) : Counts σ.session d ps o := by
  have hdefines : ¬ d.DefinesRecord := not_definesRecord (by rw [hd.tag]; rfl)
  cases h with
  | plain _ _ _ _ hcounts => exact hcounts ps hd
  | derived hmodifier =>
    rw [hd.tag] at hmodifier
    cases hmodifier
  | known hdef => exact absurd hdef hdefines
  | made hmade => exact absurd hmade.defines hdefines

/-- The type of an entry that defines an enumeration has just the constants of the entry. -/
theorem Trace.enumOf (hs : i.Sound σ) (hstart : ∀ x o, ¬ σ.session.TypeAt x o)
    (ht : i.Trace scope σ τ) {x : UInt64} {o : Ordinal} {d : Die} {ps : List (String × UInt64)}
    (htype : τ.session.TypeAt x o) (hat : i.info.dieAt x = .ok d) (hd : d.Enumerates ps) :
    τ.session.host.database.EnumOf o ps :=
  Trace.of_typeAt (P := fun μ d o => d.Enumerates ps → μ.session.host.database.EnumOf o ps)
    hs hstart ht
    (fun _ hfinding hd => (hfinding.counts hd).enumOf)
    (fun ht hc h hd => (hc.retains (Trace.sound hs ht)).enumOf (h hd)) htype hat hd

/-- The type of an entry that defines an enumeration has the first of the entry's names that is not
barred for its constants. -/
theorem Trace.named (hs : i.Sound σ) (hstart : ∀ x o, ¬ σ.session.TypeAt x o)
    (hb : σ.session.host.database.EnumsBacked) (ht : i.Trace scope σ τ) {x : UInt64} {o : Ordinal}
    {d : Die} {ps : List (String × UInt64)} {stated : String} (htype : τ.session.TypeAt x o)
    (hat : i.info.dieAt x = .ok d) (hd : d.Enumerates ps) (hname : d.name? = .ok (some stated)) :
    ∃ k, τ.session.host.database.namedType? (underscored k stated) = some o ∧
      ∀ j < k, τ.session.host.database.BarsEnum ps (underscored j stated) := by
  let P (μ : History) (d : Die) (o : Ordinal) : Prop :=
    d.Enumerates ps → d.name? = .ok (some stated) →
      ∃ k, μ.session.host.database.namedType? (underscored k stated) = some o ∧
        ∀ j < k, μ.session.host.database.BarsEnum ps (underscored j stated)
  refine Trace.of_typeAt (P := P) hs hstart ht ?_ ?_ htype hat hd hname
  · intro μ d o pending ht hfinding hd hname
    exact (hfinding.counts hd).named ((Trace.retains hs ht).backed hb) stated hname
  · intro μ ν d o ht hc h hd hname
    have hsound := Trace.sound hs ht
    have he := (hc.extends hsound).host.database
    obtain ⟨k, hnamed, hbars⟩ := h hd hname
    exact ⟨k, he.named hnamed, fun j hj => (hc.retains hsound).barsEnum he (hbars j hj)⟩

/-- Once it is there, the type of an entry without a name either is the one that the entry's first
constant leads to, or that constant leads to an enumeration with other constants. -/
theorem Trace.unnamed (hs : i.Sound σ) (hstart : ∀ x o, ¬ σ.session.TypeAt x o)
    (ht : i.Trace scope σ τ) {x : UInt64} {o : Ordinal} {d : Die} {ps : List (String × UInt64)}
    {c : String} (htype : τ.session.TypeAt x o) (hat : i.info.dieAt x = .ok d)
    (hd : d.Enumerates ps) (hname : d.name? = .ok none) (hc : (Listing.names ps).head? = some c) :
    τ.session.host.database.LeadsTo c o ∨ τ.session.host.database.Misleads c ps := by
  let P (μ : History) (d : Die) (o : Ordinal) : Prop :=
    d.Enumerates ps → d.name? = .ok none →
      μ.session.host.database.LeadsTo c o ∨ μ.session.host.database.Misleads c ps
  refine Trace.of_typeAt (P := P) hs hstart ht ?_ ?_ htype hat hd hname
  · intro μ d o pending ht hfinding hd hname
    exact ((hfinding.counts hd).unnamed hname c hc).imp_right And.left
  · intro μ ν d o ht hchange h hd hname
    have hretains := hchange.retains (Trace.sound hs ht)
    exact (h hd hname).imp hretains.leadsTo hretains.misleads

/-- Two entries that share a type have the one that their first constant leads to: only then was it
there when the second of them got it. -/
theorem Trace.shared (hs : i.Sound σ) (hstart : ∀ x o, ¬ σ.session.TypeAt x o)
    (ht : i.Trace scope σ τ) {a b : Die} {o : Ordinal} {ps : List (String × UInt64)} {c : String}
    (hne : a.offset ≠ b.offset) (hta : τ.session.TypeAt a.offset o)
    (htb : τ.session.TypeAt b.offset o) (hat : i.info.dieAt a.offset = .ok a)
    (hbt : i.info.dieAt b.offset = .ok b) (hda : a.Enumerates ps) (hdb : b.Enumerates ps)
    (hname : a.name? = .ok none) (hname' : b.name? = .ok none)
    (hc : (Listing.names ps).head? = some c) : τ.session.host.database.LeadsTo c o := by
  induction ht with
  | refl => exact (hstart _ _ hta).elim
  | @tail μ ν ht hchange ih =>
    have hsound := Trace.sound hs ht
    -- an entry that comes second finds the type in the cache
    have hsecond {d : Die} {x : UInt64} {pending : Bool} (hd : d.Enumerates ps)
        (hname : d.name? = .ok none) (hfinding : i.Finding μ d (.type o pending))
        (hold : μ.session.TypeAt x o) : μ.session.host.database.LeadsTo c o :=
      ((hfinding.counts hd).unnamed hname c hc).resolve_right fun h => h.2 x hold
    refine (hchange.retains hsound).leadsTo ?_
    obtain ⟨pending, hta⟩ := hta
    obtain ⟨pending', htb⟩ := htb
    rcases hchange.typeAt_cases hsound hta with ⟨_, holda, -⟩ | ⟨d, -, hhead, hat', hfinding⟩
    · rcases hchange.typeAt_cases hsound htb with ⟨_, holdb, -⟩ | ⟨d, -, -, hbt', hfinding⟩
      · exact ih ⟨_, holda⟩ ⟨_, holdb⟩
      · rw [hbt] at hbt'
        cases hbt'
        exact hsecond hdb hname' hfinding ⟨_, holda⟩
    · rcases hchange.typeAt_cases hsound htb with ⟨_, holdb, -⟩ | ⟨d', -, hhead', -, -⟩
      · rw [hat] at hat'
        cases hat'
        exact hsecond hda hname hfinding ⟨_, holdb⟩
      · rw [hhead] at hhead'
        exact absurd (Option.some.inj hhead') hne

end Importer

/-- Two definitions of enumerations of one name that have the same constants, in whatever order,
have one type, whatever else comes between them.  It is an enumeration with these constants. -/
theorem named_enum_ordinal_eq {sections : Sections} {info : DebugInfo}
    (hdecode : DebugInfo.decode sections = .ok info)
    (hsize : sections.entries.size < UInt64.size) (config : Config) (pointerSize : UInt64)
    {calls : List Call} (hcalls : ∀ name id, Call.addNamedType name (.enum id) ∉ calls)
    (commands : List Command) {a b : Die} (ha : info.Holds a) (hb : info.Holds b)
    {stated : String} (hname : a.name? = .ok (some stated)) (hname' : b.name? = .ok (some stated))
    {ps qs : List (String × UInt64)} (hda : a.Enumerates ps) (hdb : b.Enumerates qs)
    (hsame : ∀ pair, pair ∈ ps ↔ pair ∈ qs) {oa ob : Ordinal} :
    let s := (Importer.mk info config).performAll commands
      (newSession (Host.built pointerSize calls))
    s.TypeAt a.offset oa → s.TypeAt b.offset ob →
      oa = ob ∧ ∃ id def_, s.host.database.numberedType? oa = some ⟨def_.name, .enum id⟩ ∧
        s.host.database.enumDef? id = some def_ ∧ def_.constants.Perm ps := by
  intro s hta htb
  let i : Importer := ⟨info, config⟩
  have hi : i.info.Indexed := DebugInfo.indexed_of_decode hdecode hsize
  let start : History := ⟨newSession (Host.built pointerSize calls), []⟩
  have hstart : i.Idle start := idle_start pointerSize calls
  have hnone (x : UInt64) (o : Ordinal) : ¬ start.session.TypeAt x o := nofun
  obtain ⟨τ, htrace, hτ, -⟩ := trace_performAll hi hstart commands
  have hs : s = τ.session := hτ.symm
  rw [hs] at hta htb ⊢
  have hat := hi.dieAt_of_holds ha
  have hbt := hi.dieAt_of_holds hb
  have hcoherent := (Trace.sound hstart.sound htrace).coherent
  have hbacked := Host.enumsBacked_built pointerSize hcalls
  have hoa := Trace.enumOf hstart.sound hnone htrace hta hat hda
  have hob := Trace.enumOf hstart.sound hnone htrace htb hbt hdb
  obtain ⟨k, hnamed, hbars⟩ :=
    Trace.named hstart.sound hnone hbacked htrace hta hat hda hname
  obtain ⟨l, hnamed', hbars'⟩ :=
    Trace.named hstart.sound hnone hbacked htrace htb hbt hdb hname'
  refine ⟨Database.EnumOf.ordinal_eq hcoherent (Database.EnumOf.congr hda.names hdb.names hsame)
    hoa hob hnamed hnamed' hbars hbars', ?_⟩
  obtain ⟨id, def_, hdef, rfl, hagrees⟩ := hoa
  refine ⟨id, def_, hcoherent.enums hdef, hdef, ?_⟩
  exact (Trace.constants_perm hstart.sound htrace hdef ps).mp hagrees

/-- Three enumerations `e`: one of `A = 0` and `B = 1`, one of `A = 5`, and one of `B = 1` and
`A = 0`. -/
def reordered : Sections := .inPlace
  ⟨#[1, 17, 1, 0, 0, 2, 4, 1, 3, 8, 11, 11, 0, 0, 3, 40, 0, 3, 8, 28, 11, 0, 0, 0]⟩
  ⟨#[44, 0, 0, 0, 4, 0, 0, 0, 0, 0, 4, 1, 2, 101, 0, 4, 3, 65, 0, 0, 3, 66, 0, 1, 0, 2, 101, 0, 4,
    3, 65, 0, 5, 0, 2, 101, 0, 4, 3, 66, 0, 1, 3, 65, 0, 0, 0, 0]⟩

/-- In a database with an integer `e`, the first and the last, at offsets 12 and 34, are both
`e_`. -/
theorem named_enum_ordinal_eq_reordered :
    ∃ info a b, DebugInfo.decode reordered = .ok info ∧ reordered.entries.size < UInt64.size ∧
      info.Holds a ∧ info.Holds b ∧ a.offset ≠ b.offset ∧
      a.name? = .ok (some "e") ∧ b.name? = .ok (some "e") ∧
      a.Enumerates [("A", 0), ("B", 1)] ∧ b.Enumerates [("B", 1), ("A", 0)] ∧
      let calls := [Call.addNamedType "e" (.int .w32 true false)]
      let s := (Importer.mk info {}).performAll [.runTypes] (newSession (Host.built 4 calls))
      s.TypeAt a.offset ⟨2⟩ ∧ s.TypeAt b.offset ⟨2⟩ ∧
        ∃ id def_, s.host.database.numberedType? ⟨2⟩ = some ⟨def_.name, .enum id⟩ ∧
          s.host.database.enumDef? id = some def_ ∧
          def_.constants.Perm [("A", 0), ("B", 1)] := by
  have hsize : reordered.entries.size < UInt64.size := by decide
  have hrun : (DebugInfo.decode reordered).toOption.any (fun info =>
      (info.dieAt 12).toOption.any fun a => (info.dieAt 34).toOption.any fun b =>
        let calls := [Call.addNamedType "e" (.int .w32 true false)]
        let s := (Importer.mk info {}).performAll [.runTypes] (newSession (Host.built 4 calls))
        decide (a.offset ≠ b.offset ∧ a.name? = .ok (some "e") ∧ b.name? = .ok (some "e") ∧
          a.Enumerates [("A", 0), ("B", 1)] ∧ b.Enumerates [("B", 1), ("A", 0)] ∧
          s.cache.type? a.offset = some (⟨2⟩, false) ∧
          s.cache.type? b.offset = some (⟨2⟩, false))) = true := by
    decide +kernel
  obtain ⟨info, hdecode, hrun⟩ := Except.of_any_toOption hrun
  obtain ⟨a, hat, hrun⟩ := Except.of_any_toOption hrun
  obtain ⟨b, hbt, hrun⟩ := Except.of_any_toOption hrun
  obtain ⟨hne, hname, hname', hda, hdb, hta, htb⟩ := of_decide_eq_true hrun
  have ha := DebugInfo.holds_of_dieAt hat
  have hb := DebugInfo.holds_of_dieAt hbt
  have hcalls (name id) :
      Call.addNamedType name (.enum id) ∉ [Call.addNamedType "e" (.int .w32 true false)] := by simp
  have hsame (pair : String × UInt64) :
      pair ∈ [("A", 0), ("B", 1)] ↔ pair ∈ [("B", 1), ("A", 0)] := by
    simp [or_comm]
  exact ⟨info, a, b, hdecode, hsize, ha, hb, hne, hname, hname', hda, hdb, ⟨false, hta⟩,
    ⟨false, htb⟩,
    (named_enum_ordinal_eq hdecode hsize {} 4 hcalls [.runTypes] ha hb hname hname' hda hdb hsame
      ⟨false, hta⟩ ⟨false, htb⟩).2⟩

/-- Two definitions of enumerations without a name that have the same constants have one type just
if the first enumeration that defines their first constant has these constants and no others. -/
theorem unnamed_enum_ordinal_eq_iff {sections : Sections} {info : DebugInfo}
    (hdecode : DebugInfo.decode sections = .ok info)
    (hsize : sections.entries.size < UInt64.size) (config : Config) (pointerSize : UInt64)
    (calls : List Call) (commands : List Command) {a b : Die} (ha : info.Holds a)
    (hb : info.Holds b) (hne : a.offset ≠ b.offset) (hname : a.name? = .ok none)
    (hname' : b.name? = .ok none) {ps : List (String × UInt64)} (hda : a.Enumerates ps)
    (hdb : b.Enumerates ps) {c : String} (hc : (Listing.names ps).head? = some c)
    {oa ob : Ordinal} :
    let s := (Importer.mk info config).performAll commands
      (newSession (Host.built pointerSize calls))
    s.TypeAt a.offset oa → s.TypeAt b.offset ob →
      (oa = ob ↔ ∃ id def_, s.host.database.enumWithConstant? c = some id ∧
        s.host.database.enumDef? id = some def_ ∧ def_.constants.Perm ps) := by
  intro s hta htb
  let i : Importer := ⟨info, config⟩
  have hi : i.info.Indexed := DebugInfo.indexed_of_decode hdecode hsize
  let start : History := ⟨newSession (Host.built pointerSize calls), []⟩
  have hstart : i.Idle start := idle_start pointerSize calls
  have hnone (x : UInt64) (o : Ordinal) : ¬ start.session.TypeAt x o := nofun
  obtain ⟨τ, htrace, hτ, -⟩ := trace_performAll hi hstart commands
  have hs : s = τ.session := hτ.symm
  rw [hs] at hta htb ⊢
  have hat := hi.dieAt_of_holds ha
  have hbt := hi.dieAt_of_holds hb
  have hoa := Trace.enumOf hstart.sound hnone htrace hta hat hda
  constructor
  · rintro rfl
    obtain ⟨id, d, hfind, hd, rfl⟩ := Trace.shared hstart.sound hnone htrace hne hta htb hat hbt
      hda hdb hname hname' hc
    obtain ⟨id', d', hd', ho, hagrees⟩ := hoa
    cases (Trace.sound hstart.sound htrace).coherent.enum_eq hd' hd ho
    rw [hd] at hd'
    cases hd'
    exact ⟨id, d, hfind, hd, (Trace.constants_perm hstart.sound htrace hd ps).mp hagrees⟩
  · rintro ⟨id, d, hfind, hd, hperm⟩
    have hagrees := (Trace.constants_perm hstart.sound htrace hd ps).mpr hperm
    have hleads {x : Die} {o : Ordinal} (htype : τ.session.TypeAt x.offset o)
        (hat : i.info.dieAt x.offset = .ok x) (hx : x.Enumerates ps)
        (hname : x.name? = .ok none) : o = d.ordinal := by
      rcases Trace.unnamed hstart.sound hnone htrace htype hat hx hname hc with
        ⟨id', d', hfind', hd', rfl⟩ | ⟨id', d', hfind', hd', hdiffers⟩
      all_goals
        rw [hfind] at hfind'
        cases hfind'
        rw [hd] at hd'
        cases hd'
      · rfl
      · exact absurd hagrees hdiffers
    rw [hleads hta hat hda hname, hleads htb hbt hdb hname']

/-- An enumeration `c` of `A = 0` and `B = 1`, two without a name of `A = 0`, and two without a name
of `Z = 3`. -/
def overshadowed : Sections := .inPlace
  ⟨#[1, 17, 1, 0, 0, 2, 4, 1, 3, 8, 11, 11, 0, 0, 3, 40, 0, 3, 8, 28, 11, 0, 0, 4, 4, 1, 11, 11, 0,
    0, 0]⟩
  ⟨#[50, 0, 0, 0, 4, 0, 0, 0, 0, 0, 4, 1, 2, 99, 0, 4, 3, 65, 0, 0, 3, 66, 0, 1, 0, 4, 4, 3, 65, 0,
    0, 0, 4, 4, 3, 65, 0, 0, 0, 4, 4, 3, 90, 0, 3, 0, 4, 4, 3, 90, 0, 3, 0, 0]⟩

/-- The two of `Z`, at offsets 39 and 46, have one type.  Those of `A`, at offsets 25 and 32, do
not: `A` leads to `c`. -/
theorem unnamed_enum_ordinal_eq_iff_overshadowed :
    ∃ info, DebugInfo.decode overshadowed = .ok info ∧
      overshadowed.entries.size < UInt64.size ∧
      let s := (Importer.mk info {}).performAll [.runTypes] (newSession (Host.built 4 []))
      (∃ a b, info.Holds a ∧ info.Holds b ∧ a.offset ≠ b.offset ∧ a.name? = .ok none ∧
        b.name? = .ok none ∧ a.Enumerates [("Z", 3)] ∧ b.Enumerates [("Z", 3)] ∧
        s.TypeAt a.offset ⟨4⟩ ∧ s.TypeAt b.offset ⟨4⟩ ∧
        ∃ id def_, s.host.database.enumWithConstant? "Z" = some id ∧
          s.host.database.enumDef? id = some def_ ∧ def_.constants.Perm [("Z", 3)]) ∧
      ∃ a b, info.Holds a ∧ info.Holds b ∧ a.offset ≠ b.offset ∧ a.name? = .ok none ∧
        b.name? = .ok none ∧ a.Enumerates [("A", 0)] ∧ b.Enumerates [("A", 0)] ∧
        s.TypeAt a.offset ⟨2⟩ ∧ s.TypeAt b.offset ⟨3⟩ ∧
        ¬ ∃ id def_, s.host.database.enumWithConstant? "A" = some id ∧
          s.host.database.enumDef? id = some def_ ∧ def_.constants.Perm [("A", 0)] := by
  have hsize : overshadowed.entries.size < UInt64.size := by decide
  have hrun : (DebugInfo.decode overshadowed).toOption.any (fun info =>
      (info.dieAt 39).toOption.any fun z => (info.dieAt 46).toOption.any fun z' =>
      (info.dieAt 25).toOption.any fun a => (info.dieAt 32).toOption.any fun a' =>
        let s := (Importer.mk info {}).performAll [.runTypes] (newSession (Host.built 4 []))
        decide ((z.offset ≠ z'.offset ∧ z.name? = .ok none ∧ z'.name? = .ok none ∧
            z.Enumerates [("Z", 3)] ∧ z'.Enumerates [("Z", 3)] ∧
            s.cache.type? z.offset = some (⟨4⟩, false) ∧
            s.cache.type? z'.offset = some (⟨4⟩, false)) ∧
          a.offset ≠ a'.offset ∧ a.name? = .ok none ∧ a'.name? = .ok none ∧
            a.Enumerates [("A", 0)] ∧ a'.Enumerates [("A", 0)] ∧
            s.cache.type? a.offset = some (⟨2⟩, false) ∧
            s.cache.type? a'.offset = some (⟨3⟩, false))) = true := by
    decide +kernel
  obtain ⟨info, hdecode, hrun⟩ := Except.of_any_toOption hrun
  obtain ⟨z, hzt, hrun⟩ := Except.of_any_toOption hrun
  obtain ⟨z', hzt', hrun⟩ := Except.of_any_toOption hrun
  obtain ⟨a, hat, hrun⟩ := Except.of_any_toOption hrun
  obtain ⟨a', hat', hrun⟩ := Except.of_any_toOption hrun
  obtain ⟨⟨hnez, hname, hname', hdz, hdz', htz, htz'⟩, hnea, hnamea, hnamea', hda, hda', hta,
    hta'⟩ := of_decide_eq_true hrun
  have hz := DebugInfo.holds_of_dieAt hzt
  have hz' := DebugInfo.holds_of_dieAt hzt'
  have ha := DebugInfo.holds_of_dieAt hat
  have ha' := DebugInfo.holds_of_dieAt hat'
  refine ⟨info, hdecode, hsize, ⟨z, z', hz, hz', hnez, hname, hname', hdz, hdz', ⟨false, htz⟩,
    ⟨false, htz'⟩, ?_⟩, a, a', ha, ha', hnea, hnamea, hnamea', hda, hda', ⟨false, hta⟩,
    ⟨false, hta'⟩, fun hleads => ?_⟩
  · exact (unnamed_enum_ordinal_eq_iff hdecode hsize {} 4 [] [.runTypes] hz hz' hnez hname hname'
      hdz hdz' rfl ⟨false, htz⟩ ⟨false, htz'⟩).mp rfl
  · have hsame := (unnamed_enum_ordinal_eq_iff hdecode hsize {} 4 [] [.runTypes] ha ha' hnea hnamea
      hnamea' hda hda' rfl ⟨false, hta⟩ ⟨false, hta'⟩).mpr hleads
    cases hsame

end DebugSymbols
