import DebugSymbols.Proofs.Import.Commands
import DebugSymbols.Proofs.Import.Precedence

/-!
Which definitions of structures share a type.  Entries of one kind, name and layout get the same
type just if each is described by the structure that it got (`sameOrdinal_iff`).  That need not be
so for entries that are not described by the structures made for them, because a member had to be
left out or has the name of another.
-/

namespace DebugSymbols

/-- Two entries define structures, or unions, of one name that have the same members. -/
structure Die.Twins (a b : Die) (ps : List (String × UInt64)) : Prop where
  left : a.DefinesRecord
  right : b.DefinesRecord
  tag : a.tag = b.tag
  name : ∃ stated, a.name? = .ok (some stated) ∧ b.name? = .ok (some stated)
  places : a.places = .ok ps
  places' : b.places = .ok ps

theorem Die.Twins.symm {a b : Die} {ps : List (String × UInt64)} (h : a.Twins b ps) :
    b.Twins a ps := by
  obtain ⟨stated, hname, hname'⟩ := h.name
  exact ⟨h.right, h.left, h.tag.symm, ⟨stated, hname', hname⟩, h.places', h.places⟩

/-- The type is that of a structure which has the members, or has some to come. -/
def Session.Carries (s : Session) (o : Ordinal) (ps : List (String × UInt64)) : Prop :=
  ∃ id def_, s.host.database.structDef? id = some def_ ∧ def_.ordinal = o ∧
    ((Importer.pendingOrigin? s o).isSome = true ∨ ps ⊆ (Listing.ofStruct def_).pairs)

namespace Importer

variable {i : Importer} {σ : History} {a b : Die} {ps : List (String × UInt64)} {stated : String}

/-- The type is that of a structure which describes the entry. -/
def Recognizes (i : Importer) (s : Session) (o : Ordinal) (d : Die) : Prop :=
  ∃ id, s.Record id o ∧ i.describesStruct s id d = .ok true

theorem Recognizes.carries (hs : i.Sound σ) (hplaces : a.places = .ok ps) {o : Ordinal}
    (h : i.Recognizes σ.session o a) : Listing.Proper ps ∧ σ.session.Carries o ps := by
  obtain ⟨id, ⟨def_, hget, rfl⟩, hdescribes⟩ := h
  rw [hs.describesStruct_eq hget] at hdescribes
  split at hdescribes
  · rename_i y horigin
    obtain ⟨d, hat', hsame⟩ := Except.bind_eq_ok hdescribes
    obtain ⟨-, qs, hqs, hproper⟩ := of_sameLayout hsame
    rw [hplaces] at hqs
    cases hqs
    exact ⟨hproper, id, def_, hget, rfl, .inl (by rw [horigin]; rfl)⟩
  · obtain ⟨-, qs, hqs, hproper, hsub⟩ := of_describesRecord (by rwa [hs.structDef?]) hdescribes
    rw [hplaces] at hqs
    cases hqs
    exact ⟨hproper, id, def_, hget, rfl, .inr hsub⟩

/-- While members are missing an entry is compared with itself. -/
theorem describesStruct_of_made (hs : i.Sound σ) (hf : i.Founded σ)
    (hat : i.info.dieAt a.offset = .ok a) (hdef : a.DefinesRecord) (hplaces : a.places = .ok ps)
    {id : StructId} {o : Ordinal} (hmade : (a.offset, id) ∈ σ.makers)
    (hrecord : σ.session.Record id o) (hproper : Listing.Proper ps)
    (hcarries : σ.session.Carries o ps) : i.describesStruct σ.session id a = .ok true := by
  obtain ⟨def_, hget, rfl⟩ := hrecord
  rw [hs.describesStruct_eq hget]
  split
  · rename_i y horigin
    obtain ⟨d, id', hat', -, -, hmade', def', hget', hordinal⟩ := hs.pendingOrigin horigin
    cases hs.coherent.struct_eq hget' hget hordinal
    cases hf.unique hmade' hmade
    rw [hat]
    exact sameLayout_self hdef.1 hplaces hproper
  · rename_i hnone
    obtain ⟨_, def', hget', hordinal, hlisted⟩ := hcarries
    cases hs.coherent.struct_eq hget' hget hordinal
    cases hget.symm.trans hget'
    obtain ⟨d, def', hat', hget', hdepicts⟩ := hf.made hmade
    cases hat.symm.trans hat'
    cases hget.symm.trans hget'
    obtain ⟨qs, hqs, hsub⟩ := hdepicts.listed
    cases hplaces.symm.trans hqs
    exact describesRecord_of_subset (by rwa [hs.structDef?]) hdepicts.kind hplaces hproper hsub
      (hlisted.resolve_left (by simp [hnone]))

/-- An entry is described by its structure just if that has all of its members, or some to come,
and no two of them share a name. -/
theorem recognizes_iff (hs : i.Sound σ) (hf : i.Founded σ) (hat : i.info.dieAt a.offset = .ok a)
    (hdef : a.DefinesRecord) (hplaces : a.places = .ok ps) {id : StructId} {o : Ordinal}
    (hrecord : σ.session.Record id o) (hgot : (a.offset, id) ∈ σ.makers ∨ i.Matches σ a id) :
    i.Recognizes σ.session o a ↔ Listing.Proper ps ∧ σ.session.Carries o ps := by
  constructor
  · exact Recognizes.carries hs hplaces
  · rintro ⟨hproper, hcarries⟩
    refine ⟨id, hrecord, ?_⟩
    rcases hgot with hmade | hmatches
    · exact describesStruct_of_made hs hf hat hdef hplaces hmade hrecord hproper hcarries
    · exact hmatches.1

/-! ## Entries that nothing refers to -/

/-- The types that an entry refers to. -/
def references (d : Die) : List UInt64 :=
  (if d.tag.isModifier = true then (d.reference? .type).toOption.join.toList else []) ++
    if d.tag.isRecord = true then (d.layout.toOption.getD []).filterMap (·.typeOffset) else []

theorem mem_references {d : Die} {y : UInt64} (h : d.Refers y) : y ∈ references d := by
  unfold references
  rcases h with ⟨hmodifier, hy⟩ | ⟨hrecord, layout, hlayout, m, hm, hy⟩
  · simp [hmodifier, hy, Except.toOption]
  · simp only [hrecord, hlayout, Except.toOption, if_true, Option.getD_some]
    exact List.mem_append_right _ (List.mem_filterMap.mpr ⟨m, hm, hy⟩)

/-- All entries of the units that can be read. -/
def entries (info : DebugInfo) : List Die :=
  info.units.toList.flatMap fun slot =>
    match slot.content with
    | .ok u => (List.range u.tree.nodes.size).filterMap u.die?
    | .error _ => []

theorem mem_entries {info : DebugInfo} {d : Die} (h : info.Holds d) : d ∈ entries info := by
  obtain ⟨slot, hslot, hu, hd⟩ := h
  refine List.mem_flatMap.mpr ⟨slot, by simpa using hslot, ?_⟩
  rw [hu]
  refine List.mem_filterMap.mpr ⟨d.index, List.mem_range.mpr ?_, hd⟩
  obtain ⟨-, -, hnode⟩ := DebugInfo.die?_index hd
  exact (Array.getElem?_eq_some_iff.mp hnode).1

theorem not_reaches {x y : UInt64} (h : ∀ d ∈ entries i.info, x ∉ references d) :
    ¬ Relation.TransGen i.Refers y x := by
  intro hreaches
  obtain ⟨z, -, d, hat, hrefers⟩ := Relation.TransGen.tail'_iff.mp hreaches
  exact h d (mem_entries (DebugInfo.holds_of_dieAt hat)) (mem_references hrefers)

theorem not_enclosed (h : ∀ d ∈ entries i.info, a.offset ∉ references d) : ¬ i.Enclosed a := by
  rintro ⟨y, c, -, -, -, hreaches⟩
  exact not_reaches h hreaches

/-- Twins are found at the offsets, and nothing refers to either. -/
def twinsAt (info : DebugInfo) (x y : UInt64) (stated : String) (ps : List (String × UInt64)) :
    Bool :=
  (info.dieAt x).toOption.any fun a => (info.dieAt y).toOption.any fun b =>
    decide (a.offset = x ∧ b.offset = y ∧ a.DefinesRecord ∧ b.DefinesRecord ∧ a.tag = b.tag ∧
      a.name? = .ok (some stated) ∧ b.name? = .ok (some stated) ∧ a.places = .ok ps ∧
      b.places = .ok ps ∧ ∀ d ∈ entries info, x ∉ references d ∧ y ∉ references d)

theorem of_twinsAt {x y : UInt64} (h : twinsAt i.info x y stated ps = true) :
    ∃ a b, i.info.Holds a ∧ i.info.Holds b ∧ a.offset = x ∧ b.offset = y ∧ a.Twins b ps ∧
      ¬ i.Enclosed a ∧ ¬ i.Enclosed b := by
  obtain ⟨a, hat, h⟩ := Except.of_any_toOption h
  obtain ⟨b, hat', h⟩ := Except.of_any_toOption h
  obtain ⟨rfl, rfl, hdef, hdef', htag, hname, hname', hplaces, hplaces', hunreferred⟩ :=
    of_decide_eq_true h
  exact ⟨a, b, DebugInfo.holds_of_dieAt hat, DebugInfo.holds_of_dieAt hat', rfl, rfl,
    ⟨hdef, hdef', htag, ⟨stated, hname, hname'⟩, hplaces, hplaces'⟩,
    not_enclosed fun d hd => (hunreferred d hd).1, not_enclosed fun d hd => (hunreferred d hd).2⟩

/-! ## Twins -/

theorem describesStruct_twins (h : a.Twins b ps) (s : Session) (id : StructId) :
    i.describesStruct s id a = i.describesStruct s id b :=
  i.describesStruct_congr s id h.tag h.places h.places'

/-- A structure that describes an entry has a name that is not barred for its twin. -/
theorem Bars.not_describes (hs : i.Sound σ) (htwins : a.Twins b ps) {name : String}
    (hbars : i.Bars σ b name) {o : Ordinal}
    (hnamed : σ.session.host.database.namedType? name = some o)
    (h : i.Recognizes σ.session o a) : False := by
  obtain ⟨id, ⟨def_, hget, rfl⟩, hdescribes⟩ := h
  obtain ⟨o', t, hnamed', ht, -, hdiffers⟩ := hbars
  rw [hnamed] at hnamed'
  cases hnamed'
  rw [hs.coherent.structs hget] at ht
  cases ht
  have hshape : def_.shape id = .struct id ∨ def_.shape id = .union id := by
    unfold StructDef.shape
    cases def_.isUnion
    · exact .inl rfl
    · exact .inr rfl
  rw [describesStruct_twins htwins] at hdescribes
  exact (hdiffers id hshape).1 hdescribes

/-- A twin does not get a later name than an entry that is described by its structure. -/
theorem IsFirst.ordinal_eq (hs : i.Sound σ) (htwins : a.Twins b ps) {ia ib : StructId}
    {oa ob : Ordinal} (ha : i.IsFirst σ a stated ia) (hb : i.IsFirst σ b stated ib)
    (hra : σ.session.Record ia oa) (hrb : σ.session.Record ib ob)
    (hda : i.Recognizes σ.session oa a) (hdb : i.Recognizes σ.session ob b) : oa = ob := by
  obtain ⟨oa', k, hra', hnamed, hbars⟩ := ha
  obtain ⟨ob', l, hrb', hnamed', hbars'⟩ := hb
  obtain rfl := hra.ordinal_eq hra'
  obtain rfl := hrb.ordinal_eq hrb'
  rcases Nat.lt_trichotomy k l with hlt | heq | hgt
  · exact (Bars.not_describes hs htwins (hbars' k hlt) hnamed hda).elim
  · rw [heq, hnamed'] at hnamed
    exact (Option.some.inj hnamed).symm
  · exact (Bars.not_describes hs htwins.symm (hbars l hgt) hnamed' hdb).elim

/-- Twins that share a structure are described by it, as it was not made for both. -/
theorem recognizes_of_eq (hf : i.Founded σ) (hne : a.offset ≠ b.offset) (htwins : a.Twins b ps)
    {id : StructId} {o : Ordinal} (hrecord : σ.session.Record id o)
    (ha : (a.offset, id) ∈ σ.makers ∨ i.Matches σ a id)
    (hb : (b.offset, id) ∈ σ.makers ∨ i.Matches σ b id) :
    i.Recognizes σ.session o a ∧ i.Recognizes σ.session o b := by
  have hdescribes : i.describesStruct σ.session id a = .ok true := by
    rcases ha with ha | ha
    · rcases hb with hb | hb
      · exact absurd (hf.unique ha hb) hne
      · rw [describesStruct_twins htwins]
        exact hb.1
    · exact ha.1
  refine ⟨⟨id, hrecord, hdescribes⟩, id, hrecord, ?_⟩
  rwa [← describesStruct_twins htwins]

theorem ordinal_eq_iff (hs : i.Sound σ) (hf : i.Founded σ) (hne : a.offset ≠ b.offset)
    (htwins : a.Twins b ps) (hsa : i.Seeks a stated) (hsb : i.Seeks b stated)
    (ha : i.Placed σ a stated) (hb : i.Placed σ b stated) {oa ob : Ordinal}
    (hta : σ.session.TypeAt a.offset oa) (htb : σ.session.TypeAt b.offset ob) :
    oa = ob ↔ Listing.Proper ps ∧ σ.session.Carries oa ps ∧ σ.session.Carries ob ps := by
  obtain ⟨ia, hra, hfirst, hgot⟩ := ha.type hta
  obtain ⟨ib, hrb, hfirst', hgot'⟩ := hb.type htb
  have hrecognizes := recognizes_iff hs hf hsa.at_ htwins.left htwins.places hra hgot
  have hrecognizes' := recognizes_iff hs hf hsb.at_ htwins.right htwins.places' hrb hgot'
  constructor
  · rintro rfl
    obtain ⟨def_, hget, hordinal⟩ := hra
    obtain ⟨def', hget', hordinal'⟩ := hrb
    cases hs.coherent.struct_eq hget hget' (hordinal.trans hordinal'.symm)
    obtain ⟨hda, -⟩ := recognizes_of_eq hf hne htwins ⟨def_, hget, hordinal⟩ hgot hgot'
    obtain ⟨hproper, hcarries⟩ := hrecognizes.mp hda
    exact ⟨hproper, hcarries, hcarries⟩
  · rintro ⟨hproper, hcarries, hcarries'⟩
    exact hfirst.ordinal_eq hs htwins hfirst' hra hrb (hrecognizes.mpr ⟨hproper, hcarries⟩)
      (hrecognizes'.mpr ⟨hproper, hcarries'⟩)

theorem placed_start (pointerSize : UInt64) (x : Die) (stated : String) :
    i.Placed ⟨newSession (Host.ofDatabase (.empty pointerSize)), []⟩ x stated where
  made hmade := by cases hmade
  type := by
    rintro o ⟨pending, htype⟩
    cases htype

end Importer

open Importer

/-- After all types were imported into a new database, two definitions of a structure that agree
in kind, name and members have the same type if and only if their members, of which there are
some, have different names, and each structure has all of them or some to come.  Neither may have
been met within a definition that resembles it. -/
theorem sameOrdinal_iff {sections : Sections} {info : DebugInfo}
    (hdecode : DebugInfo.decode sections = .ok info)
    (hsize : sections.entries.size < UInt64.size) (config : Config) (pointerSize : UInt64)
    {a b : Die} (ha : info.Holds a) (hb : info.Holds b) (hne : a.offset ≠ b.offset)
    {ps : List (String × UInt64)} (htwins : a.Twins b ps)
    (hapart : ¬ (Importer.mk info config).Enclosed a)
    (hapart' : ¬ (Importer.mk info config).Enclosed b) {oa ob : Ordinal} :
    let i : Importer := ⟨info, config⟩
    let s := i.performAll [.runTypes] (newSession (Host.ofDatabase (.empty pointerSize)))
    s.TypeAt a.offset oa → s.TypeAt b.offset ob →
      (oa = ob ↔ Listing.Proper ps ∧ s.Carries oa ps ∧ s.Carries ob ps) := by
  intro i s hta htb
  have hi : i.info.Indexed := DebugInfo.indexed_of_decode hdecode hsize
  let start : History := ⟨newSession (Host.ofDatabase (.empty pointerSize)), []⟩
  have hstart : i.Idle start := idle_start pointerSize []
  have hfounded : i.Founded start := founded_start pointerSize
  have hroots (x : UInt64) : walking.roots x := trivial
  obtain ⟨τ, htrace, hτ, -⟩ :=
    trace_of_tracks hstart (tracks_visitUnits hi .types (fun _ => hroots) hstart)
  have hs : s = τ.session := hτ.symm
  rw [hs] at hta htb ⊢
  obtain ⟨stated, hname, hname'⟩ := htwins.name
  have hsa : i.Seeks a stated := ⟨hi.dieAt_of_holds ha, htwins.left, hname, hapart⟩
  have hsb : i.Seeks b stated := ⟨hi.dieAt_of_holds hb, htwins.right, hname', hapart'⟩
  exact ordinal_eq_iff (Trace.sound hstart.sound htrace)
    (Trace.founded hstart.sound hfounded htrace) hne htwins hsa hsb
    (Trace.placed hsa hstart.sound hfounded htrace (placed_start pointerSize a stated))
    (Trace.placed hsb hstart.sound hfounded htrace (placed_start pointerSize b stated)) hta htb

/-- Two units with an integer `int`, an array `int[]` without an upper bound, a structure `buf` with
members `len` and `data` of these types, and a structure `point` with a member `x`. -/
def repeated : Sections := .inPlace
  ⟨#[1, 17, 1, 0, 0, 2, 36, 0, 3, 8, 11, 11, 62, 11, 0, 0, 3, 1, 0, 73, 19, 0, 0, 4, 19, 1, 3, 8,
    0, 0, 5, 13, 0, 3, 8, 73, 19, 56, 11, 0, 0, 0]⟩
  ⟨#[64, 0, 0, 0, 4, 0, 0, 0, 0, 0, 4, 1, 2, 105, 110, 116, 0, 4, 5, 3, 12, 0, 0, 0, 4, 98, 117,
    102, 0, 5, 108, 101, 110, 0, 12, 0, 0, 0, 0, 5, 100, 97, 116, 97, 0, 19, 0, 0, 0, 4, 0, 4, 112,
    111, 105, 110, 116, 0, 5, 120, 0, 12, 0, 0, 0, 0, 0, 0, 64, 0, 0, 0, 4, 0, 0, 0, 0, 0, 4, 1, 2,
    105, 110, 116, 0, 4, 5, 3, 12, 0, 0, 0, 4, 98, 117, 102, 0, 5, 108, 101, 110, 0, 12, 0, 0, 0, 0,
    5, 100, 97, 116, 97, 0, 19, 0, 0, 0, 4, 0, 4, 112, 111, 105, 110, 116, 0, 5, 120, 0, 12, 0, 0,
    0, 0, 0, 0]⟩

/-- The definitions of `point`, at offsets 51 and 119, have one type.  Those of `buf`, at offsets 24
and 92, do not: the size of `data` is unknown, so their structures lack it. -/
theorem sameOrdinal_iff_repeated :
    ∃ info, DebugInfo.decode repeated = .ok info ∧ repeated.entries.size < UInt64.size ∧
      let i : Importer := ⟨info, {}⟩
      let s := i.performAll [.runTypes] (newSession (Host.ofDatabase (.empty 4)))
      (∃ a b, info.Holds a ∧ info.Holds b ∧ a.offset ≠ b.offset ∧ a.Twins b [("x", 0)] ∧
        ¬ i.Enclosed a ∧ ¬ i.Enclosed b ∧ s.TypeAt a.offset ⟨4⟩ ∧ s.TypeAt b.offset ⟨4⟩ ∧
        s.Carries ⟨4⟩ [("x", 0)]) ∧
      ∃ a b, info.Holds a ∧ info.Holds b ∧ a.offset ≠ b.offset ∧
        a.Twins b [("len", 0), ("data", 4)] ∧ ¬ i.Enclosed a ∧ ¬ i.Enclosed b ∧
        s.TypeAt a.offset ⟨3⟩ ∧ s.TypeAt b.offset ⟨5⟩ ∧
        ¬ (s.Carries ⟨3⟩ [("len", 0), ("data", 4)] ∧ s.Carries ⟨5⟩ [("len", 0), ("data", 4)]) := by
  have hsize : repeated.entries.size < UInt64.size := by decide +kernel
  have hrun : (DebugInfo.decode repeated).toOption.any (fun info =>
      let i : Importer := ⟨info, {}⟩
      let s := i.performAll [.runTypes] (newSession (Host.ofDatabase (.empty 4)))
      twinsAt info 51 119 "point" [("x", 0)] &&
        twinsAt info 24 92 "buf" [("len", 0), ("data", 4)] &&
        decide (s.cache.type? 51 = some (⟨4⟩, false) ∧ s.cache.type? 119 = some (⟨4⟩, false) ∧
          s.cache.type? 24 = some (⟨3⟩, false) ∧ s.cache.type? 92 = some (⟨5⟩, false))) = true := by
    decide +kernel
  obtain ⟨info, hdecode, hrun⟩ := Except.of_any_toOption hrun
  simp only [Bool.and_eq_true, decide_eq_true_eq] at hrun
  obtain ⟨⟨hpoints, hbufs⟩, hpoint, hpoint', hbuf, hbuf'⟩ := hrun
  let i : Importer := ⟨info, {}⟩
  refine ⟨info, hdecode, hsize, ?_, ?_⟩
  · obtain ⟨a, b, ha, hb, hx, hy, htwins, hapart, hapart'⟩ := of_twinsAt (i := i) hpoints
    rw [← hx] at hpoint
    rw [← hy] at hpoint'
    have hne : a.offset ≠ b.offset := by
      rw [hx, hy]
      decide
    have hiff := sameOrdinal_iff hdecode hsize {} 4 ha hb hne htwins hapart hapart'
      ⟨false, hpoint⟩ ⟨false, hpoint'⟩
    exact ⟨a, b, ha, hb, hne, htwins, hapart, hapart', ⟨false, hpoint⟩, ⟨false, hpoint'⟩,
      (hiff.mp rfl).2.1⟩
  · obtain ⟨a, b, ha, hb, hx, hy, htwins, hapart, hapart'⟩ := of_twinsAt (i := i) hbufs
    rw [← hx] at hbuf
    rw [← hy] at hbuf'
    have hne : a.offset ≠ b.offset := by
      rw [hx, hy]
      decide
    have hiff := sameOrdinal_iff hdecode hsize {} 4 ha hb hne htwins hapart hapart'
      ⟨false, hbuf⟩ ⟨false, hbuf'⟩
    have hproper : Listing.Proper [("len", 0), ("data", 4)] := by
      unfold Listing.Proper Listing.names
      decide
    refine ⟨a, b, ha, hb, hne, htwins, hapart, hapart', ⟨false, hbuf⟩, ⟨false, hbuf'⟩, ?_⟩
    intro hcarries
    have hsame := hiff.mpr ⟨hproper, hcarries⟩
    cases hsame

/-- A structure `s` with a pointer to another structure `s`, which has the same member. -/
def nested : Sections := .inPlace
  ⟨#[1, 17, 1, 0, 0, 3, 15, 0, 73, 19, 0, 0, 4, 19, 1, 3, 8, 0, 0, 5, 13, 0, 3, 8, 73, 19, 56, 11,
    0, 0, 6, 15, 0, 0, 0, 0]⟩
  ⟨#[39, 0, 0, 0, 4, 0, 0, 0, 0, 0, 4, 1, 4, 115, 0, 5, 112, 0, 24, 0, 0, 0, 0, 0, 3, 29, 0, 0, 0,
    4, 115, 0, 5, 112, 0, 41, 0, 0, 0, 0, 0, 6, 0]⟩

-- the inner `s` is met while the outer one has no members yet, and gets a type of its own
example : (DebugInfo.decode nested).toOption.any (fun info =>
    let i : Importer := ⟨info, {}⟩
    let s := i.performAll [.runTypes] (newSession (Host.ofDatabase (.empty 4)))
    decide (s.cache.type? 12 = some (⟨1⟩, false) ∧ s.cache.type? 29 = some (⟨2⟩, false))) =
      true := by
  decide +kernel

end DebugSymbols
