import DebugSymbols.Proofs.Deduplication
import DebugSymbols.Proofs.Resumption

/-!
Which typedefs of one name share a type.  Only the typedef that has the name itself, without
underscores, is compared with others by what its target looks like.  So typedefs that are taken for
that one share its type, and all others have a type for each target (`typedef_ordinal_eq_iff`).
-/

namespace DebugSymbols

open Importer

/-- The entry is a typedef of the stated name, and its target is at the offset. -/
structure DebugInfo.HoldsTypedef (info : DebugInfo) (d : Die) (stated : String) (x : UInt64) :
    Prop where
  holds : info.Holds d
  tag : d.tag = .typedef
  name : d.name = .ok stated
  target : d.reference? .type = .ok (some x)

/-! ## Names -/

namespace Database

variable {db : Database} {stated target : String} {t o : Ordinal}

/-- The type of a typedef with the target: the one that has the stated name, or another name for
just this target, with underscores. -/
def Settled (db : Database) (stated : String) (t o : Ordinal) : Prop :=
  db.namedType? stated = some o ∨
    ∃ t' k, 0 < k ∧ db.numberedType? t = some t' ∧ db.Renames stated t'.name o k

/-- If a target has another name with underscores, the one without them is not for this target. -/
theorem Renames.shape_ne {k : Nat} (h : db.Renames stated target o k) (hk : 0 < k) {p : Ordinal}
    {t : NamedType} (hnamed : db.namedType? stated = some p) (ht : db.numberedType? p = some t) :
    t.shape ≠ .typedef target := by
  obtain ⟨p', t', hnamed', ht', hother⟩ := h.excluded 0 hk
  change db.namedType? stated = some p' at hnamed'
  rw [hnamed] at hnamed'
  cases hnamed'
  rw [ht] at ht'
  cases ht'
  exact hother

/-- What has underscores does not have the name without them. -/
theorem Renames.namedType?_ne {k : Nat} (h : db.Renames stated target o k) (hk : 0 < k) :
    db.namedType? stated ≠ some o :=
  fun hnamed => h.shape_ne hk hnamed h.shape rfl

/-- There is one other name for a target. -/
theorem Renames.ordinal_eq {k l : Nat} {o' : Ordinal} (h : db.Renames stated target o k)
    (h' : db.Renames stated target o' l) : o = o' := by
  have hnot {k l : Nat} {o o' : Ordinal} (h : db.Renames stated target o k)
      (h' : db.Renames stated target o' l) : ¬ k < l := by
    intro hlt
    obtain ⟨o₁, t₁, hnamed, ht₁, hother⟩ := h'.excluded k hlt
    rw [h.named] at hnamed
    cases hnamed
    rw [h.shape] at ht₁
    cases ht₁
    exact hother rfl
  obtain rfl : k = l := Nat.le_antisymm (Nat.not_lt.mp (hnot h' h)) (Nat.not_lt.mp (hnot h h'))
  exact Option.some.inj (h.named.symm.trans h'.named)

theorem Settled.eq_iff {ta tb oa ob : Ordinal} (hc : db.Coherent) (ha : db.Settled stated ta oa)
    (hb : db.Settled stated tb ob) :
    oa = ob ↔ db.namedType? stated = some oa ∧ db.namedType? stated = some ob ∨
      db.namedType? stated ≠ some oa ∧ db.namedType? stated ≠ some ob ∧ ta = tb := by
  constructor
  · rintro rfl
    by_cases hnamed : db.namedType? stated = some oa
    · exact .inl ⟨hnamed, hnamed⟩
    · obtain ⟨t, k, -, ht, hrenames⟩ := ha.resolve_left hnamed
      obtain ⟨t', l, -, ht', hrenames'⟩ := hb.resolve_left hnamed
      have hshape := hrenames.shape
      rw [hrenames'.shape] at hshape
      simp only [Option.some.injEq, NamedType.mk.injEq, TypeShape.typedef.injEq] at hshape
      have hsame := hc.named ht
      rw [← hshape.2, hc.named ht'] at hsame
      exact .inr ⟨hnamed, hnamed, (Option.some.inj hsame).symm⟩
  · rintro (⟨hnamed, hnamed'⟩ | ⟨hnot, hnot', rfl⟩)
    · exact Option.some.inj (hnamed.symm.trans hnamed')
    · obtain ⟨t, k, -, ht, hrenames⟩ := ha.resolve_left hnot
      obtain ⟨t', l, -, ht', hrenames'⟩ := hb.resolve_left hnot'
      rw [ht] at ht'
      cases ht'
      exact hrenames.ordinal_eq hrenames'

end Database

namespace Importer

variable {i : Importer} {scope : Scope} {σ μ τ : History} {d : Die} {stated : String}
  {t o p : Ordinal} {shape : TypeShape}

/-! ## What typedefs are found to be -/

theorem Finding.aliased {pending : Bool} (h : i.Finding σ d (.type o pending))
    (htag : d.tag = .typedef) (hname : d.name = .ok stated) :
    ∃ t, σ.session.Target d t ∧ i.Aliased σ.session stated t o := by
  have hdefines : ¬ d.DefinesRecord := not_definesRecord (by rw [htag]; rfl)
  cases h with
  | plain _ hmodifier =>
    rw [htag] at hmodifier
    cases hmodifier
  | derived _ htarget _ _ haliased => exact ⟨_, htarget, haliased htag stated hname⟩
  | known hdef => exact absurd hdef hdefines
  | made hmade => exact absurd hmade.defines hdefines

theorem Aliased.settled (hs : i.Sound σ) (h : i.Aliased σ.session stated t o)
    (he : σ.session.Extends τ.session) : τ.session.host.database.Settled stated t o := by
  cases h with
  | same hsame =>
    obtain ⟨shape, c, hcompares, -⟩ := hs.sameAlias?_eq_some.mp hsame
    exact .inl (he.host.database.named hcompares.named)
  | @renamed t' k ht hrenames =>
    have hrenames' := hrenames.mono he.host.database
    rcases Nat.eq_zero_or_pos k with rfl | hk
    · exact .inl hrenames'.named
    · obtain ⟨t'', ht'', hbecomes⟩ := he.host.database.types ht
      exact .inr ⟨t'', k, hk, ht'', hbecomes.name ▸ hrenames'⟩

/-- At the point when a typedef was found to be a type, that was as it had to be for its target. -/
theorem Trace.aliased (hs : i.Sound σ) (hstart : ∀ x o, ¬ σ.session.TypeAt x o)
    (ht : i.Trace scope σ τ) (hi : i.info.Indexed) {x : UInt64}
    (hd : i.info.HoldsTypedef d stated x) (htype : τ.session.TypeAt d.offset o)
    (htarget : τ.session.TypeAt x t) :
    ∃ μ, i.Trace scope σ μ ∧ i.Trace scope μ τ ∧
      μ.session.resolving.head? = some d.offset ∧ μ.session.TypeAt x t ∧
      i.Aliased μ.session stated t o := by
  obtain ⟨μ, pending, hfirst, hlater, hhead, hfinding⟩ :=
    Trace.found hs hstart ht htype (hi.dieAt_of_holds hd.holds)
  obtain ⟨t', htarget', haliased⟩ := hfinding.aliased hd.tag hd.name
  unfold Session.Target at htarget'
  rw [hd.target] at htarget'
  have hsame := (Trace.extends (Trace.sound hs hfirst) hlater).types htarget'
  obtain rfl := htarget.ordinal_eq hsame
  exact ⟨μ, hfirst, hlater, hhead, htarget', haliased⟩

/-! ## What is behind other names -/

/-- Whatever is another name for a type is one for a type that occurs. -/
def AllOccur (σ : History) : Prop :=
  ∀ {p name target}, σ.session.host.database.numberedType? p = some ⟨name, .typedef target⟩ →
    ∃ q, σ.session.host.database.namedType? target = some q ∧ σ.session.Occurs q

theorem Change.allOccur (hs : i.Sound σ) (hc : i.Change scope σ τ) (h : AllOccur σ) :
    AllOccur τ := by
  intro p name target ht
  have he := hc.extends hs
  have hold : σ.session.host.database.numberedType? p = some ⟨name, .typedef target⟩ ∨
      ∃ q, σ.session.host.database.namedType? target = some q ∧ σ.session.Occurs q := by
    cases hc with
    | note | dismiss | place | enter | leave | clear => exact .inl ht
    | grow _ _ haliases => exact haliases ht
    | @create _ id _ _ _ hcreates =>
      obtain ⟨_, hadd, -⟩ := hcreates.added
      obtain ⟨db, hdb, rfl⟩ := Host.addStruct?_eq_some hadd
      obtain ⟨def_, hadds⟩ := Database.addsStruct hs.coherent hdb
      simp only [hadds.types] at ht
      split at ht
      · simp only [Option.some.injEq, NamedType.mk.injEq] at ht
        have hdefinition := def_.isDefinition_shape id
        rw [ht.2] at hdefinition
        exact hdefinition.elim
      · exact .inl ht
    | attach _ hattaches =>
      obtain ⟨db, hdb, rfl⟩ := Host.addStructMember?_eq_some hattaches.added
      obtain ⟨def_, hadds⟩ := Database.addsMember hdb
      obtain rfl := hadds.eq
      exact .inl ht
  obtain ⟨q, hnamed, hoccurs⟩ := hold.elim h id
  exact ⟨q, he.host.database.named hnamed, hoccurs.mono he⟩

theorem Trace.allOccur (hs : i.Sound σ) (ht : i.Trace scope σ τ) (h : AllOccur σ) :
    AllOccur τ := by
  induction ht with
  | refl => exact h
  | tail ht hc ih => exact hc.allOccur (Trace.sound hs ht) ih

theorem allOccur_start (pointerSize : UInt64) :
    AllOccur ⟨newSession (Host.ofDatabase (.empty pointerSize)), []⟩ := by
  intro p name target ht
  have hnone := Database.numberedType?_empty pointerSize p
  cases ht.symm.trans hnone

/-- Only a declaration is translated to an incomplete type. -/
theorem isDeclaration_of_translates {s : Session} (h : s.Translates d o .incomplete) :
    d.isDeclaration = .ok true := by
  unfold Session.Translates at h
  split at h
  case h_7 =>
    obtain ⟨encoding, size, expected, -, -, hbase⟩ := h
    exact absurd hbase (Session.baseShape?_ne_incomplete _ _ _)
  case h_9 | h_10 | h_11 =>
    split at h
    · assumption
    · exact h.elim
    · exact h.elim
  all_goals simp_all

/-- A type that comes from something else than a declaration is complete once it occurs. -/
theorem Sound.complete_of_occurs (hs : i.Sound σ) (hc : σ.session.cache.Consistent) {q : Ordinal}
    (hoccurs : σ.session.Occurs q)
    (hdefined : ∀ z c, σ.session.cache.typeOffset? q = some z → i.info.dieAt z = .ok c →
      c.isDeclaration ≠ .ok true) {name : String} :
    σ.session.host.database.numberedType? q ≠ some ⟨name, .incomplete⟩ := by
  intro ht
  rcases hoccurs with ⟨x, pending, htype⟩ | ⟨name', ht'⟩
  · obtain ⟨z, hz⟩ := hc.indexed htype
    obtain ⟨c, hat, t, ht', htranslates⟩ := hs.types (hs.origins hz)
    rw [ht] at ht'
    cases ht'
    exact hdefined z c hz hat (isDeclaration_of_translates htranslates)
  · rw [ht] at ht'
    cases ht'

/-! ## Comparisons of typedefs -/

/-- The type that has the stated name stands for the target: it is another name for it, or for one
that is taken for the same. -/
def Covers (i : Importer) (s : Session) (stated : String) (t : Ordinal) : Prop :=
  (∃ p target, s.host.database.namedType? stated = some p ∧
    s.host.database.numberedType? p = some ⟨stated, .typedef target⟩ ∧
    s.host.database.namedType? target = some t) ∨
  ∃ p, i.sameAlias? s stated t = .ok (some p)

/-- A typedef was compared with the one that has its name when all was there for that: what that one
stands for does not come from a declaration, and no structure that might be taken for the target
leads to the typedef. -/
structure Comparable (i : Importer) (s : Session) (d : Die) (stated : String) (t : Ordinal) :
    Prop where
  defined : ∀ p target q z c, s.host.database.namedType? stated = some p →
    s.host.database.numberedType? p = some ⟨stated, .typedef target⟩ →
    s.host.database.namedType? target = some q → s.cache.typeOffset? q = some z →
    i.info.dieAt z = .ok c → c.isDeclaration ≠ .ok true
  apart : ∀ x w y c, s.cache.typeOffset? t = some x → i.info.dieAt x = .ok w → y ≠ x →
    i.info.dieAt y = .ok c → c.DefinesRecord → c.Includes w →
    ¬ Relation.TransGen i.Refers y d.offset

/-- A structure that might be taken for the target is filled when a typedef is met. -/
theorem Comparable.filled (hs : i.Sound μ) (hf : i.Founded μ) (ht : i.Trace scope μ τ)
    (hcomparable : i.Comparable τ.session d stated t)
    (hhead : μ.session.resolving.head? = some d.offset) (hat : i.info.dieAt d.offset = .ok d)
    (htag : d.tag = .typedef) {x : UInt64} {w : Die}
    (hx : μ.session.cache.typeOffset? t = some x) (hw : i.info.dieAt x = .ok w) {id : StructId}
    {def_ : StructDef} (hget : μ.session.host.database.structDef? id = some def_)
    (hincludes : ∀ y c, (y, id) ∈ μ.makers → i.info.dieAt y = .ok c → c.Includes w) :
    Filled μ id := by
  obtain ⟨y, hmade⟩ := hf.maker hget
  obtain ⟨⟨c, hatc, hdefines⟩, -⟩ := hs.makers hmade
  refine ⟨y, hmade, fun hresolving => ?_⟩
  have hne : y ≠ d.offset := by
    rintro rfl
    rw [hat] at hatc
    cases hatc
    exact not_definesRecord (by rw [htag]; rfl) hdefines
  have hother : y ≠ x := by
    rintro rfl
    obtain ⟨pending, htype⟩ := hs.origins hx
    rw [type?_eq_none_of_get? (hs.uncached y hresolving)] at htype
    cases htype
  exact hcomparable.apart x w y c (Trace.typeOffset? hs ht hx) hw hother hatc hdefines
    (hincludes y c hmade hatc) (hs.reaches_of_mem hhead hresolving hne)

/-- What a typedef is compared with does not come to look otherwise. -/
theorem Comparable.shapeFits_iff (hs : i.Sound μ) (hf : i.Founded μ) (ht : i.Trace walking μ τ)
    (hcomparable : i.Comparable τ.session d stated t)
    (hhead : μ.session.resolving.head? = some d.offset) (hat : i.info.dieAt d.offset = .ok d)
    (htag : d.tag = .typedef) {x : UInt64} {w : Die}
    (hx : μ.session.cache.typeOffset? t = some x) (hw : i.info.dieAt x = .ok w) {q : Ordinal}
    {name : String} (hq : μ.session.host.database.numberedType? q = some ⟨name, shape⟩) :
    i.ShapeFits τ.session w shape ↔ i.ShapeFits μ.session w shape := by
  have hsτ := Trace.sound hs ht
  have hfilled {id : StructId} (hshape : shape = .struct id ∨ shape = .union id)
      (h : i.describesStruct μ.session id w = .ok true ∨
        i.describesStruct τ.session id w = .ok true) : Filled μ id := by
    obtain ⟨def_, hget, -⟩ := hf.backed.structs hq hshape
    refine hcomparable.filled hs hf ht hhead hat htag hx hw hget fun y c hmade hatc => ?_
    rcases h with h | h
    · exact Founded.includes hs hf hmade hatc h
    · exact Founded.includes hsτ (Trace.founded hs hf ht) (Trace.makers ht hmade) hatc h
  have hstruct {id : StructId} (hshape : shape = .struct id ∨ shape = .union id) :
      i.describesStruct τ.session id w = .ok true ↔
        i.describesStruct μ.session id w = .ok true := by
    constructor
    · intro h
      rwa [← Trace.describesStruct_eq hs hf ht (hfilled hshape (.inr h)) w]
    · intro h
      rwa [Trace.describesStruct_eq hs hf ht (hfilled hshape (.inl h)) w]
  cases shape with
  | struct id => exact hstruct (.inl rfl)
  | union id => exact hstruct (.inr rfl)
  | enum id =>
    obtain ⟨e, he, -⟩ := hf.backed.enums hq rfl
    have hsame : describesEnum τ.session.host id w = describesEnum μ.session.host id w := by
      unfold describesEnum
      rw [hs.enumDef?, hsτ.enumDef?, he, (Trace.retains hs ht).enums he]
    change describesEnum τ.session.host id w = .ok true ↔ _
    rw [hsame]
    exact Iff.rfl
  | _ => exact Iff.rfl

/-- What something complete was compared with is there in the end to be compared with. -/
theorem Compares.later (hs : i.Sound μ) (ht : i.Trace scope μ τ) {w : Die}
    (hc : i.Compares μ.session stated t p shape w) (hcomplete : shape ≠ .incomplete) :
    i.Compares τ.session stated t p shape w := by
  have he := (Trace.extends hs ht).host.database
  obtain ⟨other, q, hp, hother, hq⟩ := hc.aliased
  obtain ⟨x, hx, hw⟩ := hc.origin
  exact ⟨he.named hc.named,
    ⟨other, q, he.type_eq hp nofun, he.named hother, he.type_eq hq hcomplete⟩, x,
    Trace.typeOffset? hs ht hx, hw⟩

/-- What a typedef is compared with in the end was there to be compared with. -/
theorem Comparable.compares (hs : i.Sound μ) (hcache : μ.session.cache.Consistent)
    (hoccur : AllOccur μ) (ht : i.Trace scope μ τ) (hcomparable : i.Comparable τ.session d stated t)
    {p' : Ordinal} (hnamed : μ.session.host.database.namedType? stated = some p') {x : UInt64}
    (hx : μ.session.cache.typeOffset? t = some x) {w : Die}
    (hc : i.Compares τ.session stated t p shape w) : i.Compares μ.session stated t p shape w := by
  have he := (Trace.extends hs ht).host.database
  have hsame := he.named hnamed
  rw [hc.named] at hsame
  cases hsame
  obtain ⟨other, q, hp, hother, hq⟩ := hc.aliased
  obtain ⟨shape₀, hp₀⟩ := Database.numberedType?_of_named hnamed
  cases he.typedef_eq hp₀ hp
  obtain ⟨q', hother', hoccurs⟩ := hoccur hp₀
  have hsame := he.named hother'
  rw [hother] at hsame
  cases hsame
  obtain ⟨shape', hq'⟩ := Database.numberedType?_of_named hother'
  have hcomplete : shape' ≠ .incomplete := by
    rintro rfl
    exact hs.complete_of_occurs hcache hoccurs (fun z c hz => hcomparable.defined p other q z c
      hc.named hp hother (Trace.typeOffset? hs ht hz)) hq'
  have hsame := he.type_eq hq' hcomplete
  rw [hq] at hsame
  cases hsame
  obtain ⟨x', hx', hw⟩ := hc.origin
  rw [Trace.typeOffset? hs ht hx] at hx'
  cases hx'
  exact ⟨hnamed, ⟨other, q, hp₀, hother', hq'⟩, x, hx, hw⟩

/-- A typedef has the type of its own name just if that stands for its target. -/
theorem Aliased.named_iff (hs : i.Sound μ) (hf : i.Founded μ) (hcache : μ.session.cache.Consistent)
    (hoccur : AllOccur μ) (ht : i.Trace walking μ τ)
    (hhead : μ.session.resolving.head? = some d.offset) (hat : i.info.dieAt d.offset = .ok d)
    (htag : d.tag = .typedef) {y : UInt64} (htype : μ.session.TypeAt y t)
    (h : i.Aliased μ.session stated t o) (hcomparable : i.Comparable τ.session d stated t) :
    τ.session.host.database.namedType? stated = some o ↔ i.Covers τ.session stated t := by
  have hsτ := Trace.sound hs ht
  have he := (Trace.extends hs ht).host.database
  cases h with
  | same hsame =>
    obtain ⟨shape, w, hcompares, hfits⟩ := hs.sameAlias?_eq_some.mp hsame
    obtain ⟨other, q, hp, hother, hq⟩ := hcompares.aliased
    obtain ⟨x, hx, hw⟩ := hcompares.origin
    have hcomplete : shape ≠ .incomplete := by
      rintro rfl
      cases hfits
    have hcompares' := hcompares.later hs ht hcomplete
    have hfits' := (hcomparable.shapeFits_iff hs hf ht hhead hat htag hx hw hq).mpr hfits
    exact iff_of_true hcompares'.named
      (.inr ⟨o, hsτ.sameAlias?_eq_some.mpr ⟨shape, w, hcompares', hfits'⟩⟩)
  | @renamed t' k hget hrenames hdiffers =>
    have hrenames' := hrenames.mono he
    rcases Nat.eq_zero_or_pos k with rfl | hk
    · exact iff_of_true hrenames'.named (.inl ⟨o, t'.name, hrenames'.named, hrenames'.shape,
        he.named (hs.coherent.named hget)⟩)
    · refine iff_of_false (hrenames'.namedType?_ne hk) ?_
      rintro (⟨p, target, hnamed, hp, htarget⟩ | ⟨p, hsame⟩)
      · obtain ⟨shape, ht'⟩ := Database.numberedType?_of_named htarget
        obtain ⟨t'', ht'', hbecomes⟩ := he.types hget
        rw [ht'] at ht''
        cases ht''
        exact hrenames'.shape_ne hk hnamed hp (congrArg TypeShape.typedef hbecomes.name)
      · obtain ⟨shape, w, hcompares, hfits⟩ := hsτ.sameAlias?_eq_some.mp hsame
        obtain ⟨p', -, hnamed, -⟩ := hrenames.excluded 0 hk
        obtain ⟨pending, htype⟩ := htype
        obtain ⟨x, hx⟩ := hcache.indexed htype
        have hcompares' := hcomparable.compares hs hcache hoccur ht hnamed hx hcompares
        obtain ⟨other, q, -, -, hq⟩ := hcompares'.aliased
        obtain ⟨x', hx', hw⟩ := hcompares'.origin
        have hfits' := (hcomparable.shapeFits_iff hs hf ht hhead hat htag hx' hw hq).mp hfits
        exact hdiffers hk p (hs.sameAlias?_eq_some.mpr ⟨shape, w, hcompares', hfits'⟩)

end Importer

/-- After all types were imported into a new database, two typedefs of one name have one type if and
only if both have the type of just that name, or neither has it and they have the same target.  A
typedef that was comparable has the type of its own name if and only if that stands for its
target. -/
theorem typedef_ordinal_eq_iff {sections : Sections} {info : DebugInfo}
    (hdecode : DebugInfo.decode sections = .ok info)
    (hsize : sections.entries.size < UInt64.size) (config : Config) (pointerSize : UInt64)
    {a b : Die} {stated : String} {x y : UInt64} (ha : info.HoldsTypedef a stated x)
    (hb : info.HoldsTypedef b stated y) {oa ob ta tb : Ordinal} :
    let i : Importer := ⟨info, config⟩
    let s := i.performAll [.runTypes] (newSession (Host.ofDatabase (.empty pointerSize)))
    s.TypeAt a.offset oa → s.TypeAt b.offset ob → s.TypeAt x ta → s.TypeAt y tb →
      (oa = ob ↔
        s.host.database.namedType? stated = some oa ∧ s.host.database.namedType? stated = some ob ∨
          s.host.database.namedType? stated ≠ some oa ∧
            s.host.database.namedType? stated ≠ some ob ∧ ta = tb) ∧
      (i.Comparable s a stated ta →
        (s.host.database.namedType? stated = some oa ↔ i.Covers s stated ta)) := by
  intro i s hoa hob hta htb
  have hi : i.info.Indexed := DebugInfo.indexed_of_decode hdecode hsize
  let start : History := ⟨newSession (Host.ofDatabase (.empty pointerSize)), []⟩
  have hstart : i.Idle start := idle_start pointerSize []
  have hnone (x : UInt64) (o : Ordinal) : ¬ start.session.TypeAt x o := nofun
  have hroots (x : UInt64) : walking.roots x := trivial
  obtain ⟨τ, htrace, hτ, -⟩ :=
    trace_of_tracks hstart (tracks_visitUnits hi .types (fun _ => hroots) hstart)
  have hs : s = τ.session := hτ.symm
  rw [hs] at hoa hob hta htb ⊢
  obtain ⟨μ, hfirst, hlater, hhead, htype, haliased⟩ :=
    Trace.aliased hstart.sound hnone htrace hi ha hoa hta
  obtain ⟨ν, hfirst', hlater', -, -, haliased'⟩ :=
    Trace.aliased hstart.sound hnone htrace hi hb hob htb
  have hsμ := Trace.sound hstart.sound hfirst
  have hsν := Trace.sound hstart.sound hfirst'
  refine ⟨Database.Settled.eq_iff (Trace.sound hstart.sound htrace).coherent
    (haliased.settled hsμ (Trace.extends hsμ hlater))
    (haliased'.settled hsν (Trace.extends hsν hlater')), fun hcomparable => ?_⟩
  exact haliased.named_iff hsμ
    (Trace.founded hstart.sound (founded_start pointerSize) hfirst)
    (Trace.consistent hfirst .empty)
    (Trace.allOccur hstart.sound hfirst (allOccur_start pointerSize)) hlater hhead
    (hi.dieAt_of_holds ha.holds) ha.tag htype hcomparable

/-- Four typedefs `T` of structures without a name, with members `x`, `y`, `y` and `x`. -/
def crowded : Sections := .inPlace
  ⟨#[1, 17, 1, 0, 0, 2, 36, 0, 3, 8, 11, 11, 62, 11, 0, 0, 3, 19, 1, 0, 0, 4, 13, 0, 3, 8, 73, 19,
    56, 11, 0, 0, 5, 22, 0, 3, 8, 73, 19, 0, 0, 0]⟩
  ⟨#[82, 0, 0, 0, 4, 0, 0, 0, 0, 0, 4, 1, 2, 105, 0, 4, 5, 3, 4, 120, 0, 12, 0, 0, 0, 0, 0, 5, 84,
    0, 17, 0, 0, 0, 3, 4, 121, 0, 12, 0, 0, 0, 0, 0, 5, 84, 0, 34, 0, 0, 0, 3, 4, 121, 0, 12, 0, 0,
    0, 0, 0, 5, 84, 0, 51, 0, 0, 0, 3, 4, 120, 0, 12, 0, 0, 0, 0, 0, 5, 84, 0, 68, 0, 0, 0, 0]⟩

/-- A typedef is found at an offset, with its type and that of its target, and nothing refers to
it. -/
def typedefAt (info : DebugInfo) (s : Session) (stated : String) (z x : UInt64) (o t : Ordinal) :
    Bool :=
  (info.dieAt z).toOption.any fun d =>
    decide (d.offset = z ∧ d.tag = .typedef ∧ d.name = .ok stated ∧
      d.reference? .type = .ok (some x) ∧ s.cache.type? z = some (o, false) ∧
      s.cache.type? x = some (t, false) ∧ ∀ d ∈ entries info, z ∉ references d)

theorem of_typedefAt {i : Importer} {s : Session} {stated : String} {z x : UInt64} {o t : Ordinal}
    (h : typedefAt i.info s stated z x o t = true) :
    ∃ d, i.info.HoldsTypedef d stated x ∧ s.TypeAt d.offset o ∧ s.TypeAt x t ∧
      ∀ y, ¬ Relation.TransGen i.Refers y d.offset := by
  obtain ⟨d, hat, h⟩ := Except.of_any_toOption h
  obtain ⟨rfl, htag, hname, hx, ho, ht, hunreferred⟩ := of_decide_eq_true h
  exact ⟨d, ⟨DebugInfo.holds_of_dieAt hat, htag, hname, hx⟩, ⟨false, ho⟩, ⟨false, ht⟩,
    fun _ => not_reaches hunreferred⟩

/-- The first and the last typedef share the type `T`.  The two between them do not share a type,
though their targets have the same member, for `T` stands for neither. -/
theorem typedef_ordinal_eq_iff_crowded :
    ∃ info, DebugInfo.decode crowded = .ok info ∧ crowded.entries.size < UInt64.size ∧
      let i : Importer := ⟨info, {}⟩
      let s := i.performAll [.runTypes] (newSession (Host.ofDatabase (.empty 4)))
      (∃ a b, info.HoldsTypedef a "T" 17 ∧ info.HoldsTypedef b "T" 68 ∧
        s.TypeAt a.offset ⟨3⟩ ∧ s.TypeAt b.offset ⟨3⟩ ∧ s.TypeAt 17 ⟨2⟩ ∧ s.TypeAt 68 ⟨8⟩ ∧
        i.Covers s "T" ⟨2⟩ ∧ i.Covers s "T" ⟨8⟩) ∧
      ∃ a b c d, info.HoldsTypedef a "T" 34 ∧ info.HoldsTypedef b "T" 51 ∧
        info.dieAt 34 = .ok c ∧ info.dieAt 51 = .ok d ∧ c.DefinesRecord ∧ d.DefinesRecord ∧
        c.tag = d.tag ∧ c.places = .ok [("y", 0)] ∧ d.places = .ok [("y", 0)] ∧
        s.TypeAt a.offset ⟨5⟩ ∧ s.TypeAt b.offset ⟨7⟩ ∧ s.TypeAt 34 ⟨4⟩ ∧ s.TypeAt 51 ⟨6⟩ ∧
        s.Carries ⟨4⟩ [("y", 0)] ∧ s.Carries ⟨6⟩ [("y", 0)] ∧
        ¬ i.Covers s "T" ⟨4⟩ ∧ ¬ i.Covers s "T" ⟨6⟩ := by
  have hsize : crowded.entries.size < UInt64.size := by decide +kernel
  have hrun : (DebugInfo.decode crowded).toOption.any (fun info =>
      let i : Importer := ⟨info, {}⟩
      let s := i.performAll [.runTypes] (newSession (Host.ofDatabase (.empty 4)))
      let db := s.host.database
      let other := "__anon_struct_1"
      (info.dieAt 17).toOption.any fun z => (info.dieAt 34).toOption.any fun c =>
      (info.dieAt 51).toOption.any fun d => (db.structDef? ⟨1⟩).any fun e =>
      (db.structDef? ⟨2⟩).any fun e' =>
        typedefAt info s "T" 27 17 ⟨3⟩ ⟨2⟩ && typedefAt info s "T" 78 68 ⟨3⟩ ⟨8⟩ &&
        typedefAt info s "T" 44 34 ⟨5⟩ ⟨4⟩ && typedefAt info s "T" 61 51 ⟨7⟩ ⟨6⟩ &&
        decide ((db.namedType? "T" = some ⟨3⟩ ∧
            db.numberedType? ⟨3⟩ = some ⟨"T", .typedef other⟩ ∧
            db.namedType? other = some ⟨2⟩ ∧ s.cache.typeOffset? ⟨2⟩ = some 17 ∧
            z.isDeclaration = .ok false) ∧
          c.DefinesRecord ∧ d.DefinesRecord ∧ c.tag = d.tag ∧ c.places = .ok [("y", 0)] ∧
          d.places = .ok [("y", 0)] ∧ e.ordinal = ⟨4⟩ ∧ [("y", 0)] ⊆ (Listing.ofStruct e).pairs ∧
          e'.ordinal = ⟨6⟩ ∧ [("y", 0)] ⊆ (Listing.ofStruct e').pairs)) = true := by
    decide +kernel
  obtain ⟨info, hdecode, hrun⟩ := Except.of_any_toOption hrun
  obtain ⟨z, hzt, hrun⟩ := Except.of_any_toOption hrun
  obtain ⟨c, hct, hrun⟩ := Except.of_any_toOption hrun
  obtain ⟨d, hdt, hrun⟩ := Except.of_any_toOption hrun
  obtain ⟨e, he, hrun⟩ := (Option.any_eq_true ..).mp hrun
  obtain ⟨e', he', hrun⟩ := (Option.any_eq_true ..).mp hrun
  simp only [Bool.and_eq_true, decide_eq_true_eq] at hrun
  obtain ⟨⟨⟨⟨hfirst, hlast⟩, hsecond⟩, hthird⟩, ⟨hnamed, hget, hother, horigin, hdefined⟩, hcdef,
    hddef, htag, hcplaces, hdplaces, ho, hsub, ho', hsub'⟩ := hrun
  let i : Importer := ⟨info, {}⟩
  let s := i.performAll [.runTypes] (newSession (Host.ofDatabase (.empty 4)))
  have hcomparable {d : Die} {t : Ordinal} (h : ∀ y, ¬ Relation.TransGen i.Refers y d.offset) :
      i.Comparable s d "T" t := by
    refine ⟨fun p target q z' c hp ht hq hz hc => ?_, fun _ _ y _ _ _ _ _ _ _ => h y⟩
    cases hnamed.symm.trans hp
    cases hget.symm.trans ht
    cases hother.symm.trans hq
    cases horigin.symm.trans hz
    cases hzt.symm.trans hc
    rw [hdefined]
    nofun
  obtain ⟨a₁, ha₁, ho₁, ht₁, hapart₁⟩ := of_typedefAt (i := i) hfirst
  obtain ⟨a₄, ha₄, ho₄, ht₄, hapart₄⟩ := of_typedefAt (i := i) hlast
  obtain ⟨a₂, ha₂, ho₂, ht₂, hapart₂⟩ := of_typedefAt (i := i) hsecond
  obtain ⟨a₃, ha₃, ho₃, ht₃, hapart₃⟩ := of_typedefAt (i := i) hthird
  have hcovers {a : Die} {x : UInt64} {o t : Ordinal} (ha : info.HoldsTypedef a "T" x)
      (ho : s.TypeAt a.offset o) (ht : s.TypeAt x t)
      (hapart : ∀ y, ¬ Relation.TransGen i.Refers y a.offset) :
      s.host.database.namedType? "T" = some o ↔ i.Covers s "T" t :=
    (typedef_ordinal_eq_iff hdecode hsize {} 4 ha ha ho ho ht ht).2 (hcomparable hapart)
  have hne {o : Ordinal} (ho : (⟨3⟩ : Ordinal) ≠ o) : s.host.database.namedType? "T" ≠ some o :=
    fun heq => ho (Option.some.inj (hnamed.symm.trans heq))
  exact ⟨info, hdecode, hsize,
    ⟨a₁, a₄, ha₁, ha₄, ho₁, ho₄, ht₁, ht₄, (hcovers ha₁ ho₁ ht₁ hapart₁).mp hnamed,
      (hcovers ha₄ ho₄ ht₄ hapart₄).mp hnamed⟩,
    a₂, a₃, c, d, ha₂, ha₃, hct, hdt, hcdef, hddef, htag, hcplaces, hdplaces, ho₂, ho₃, ht₂, ht₃,
    ⟨⟨1⟩, e, he, ho, .inr hsub⟩, ⟨⟨2⟩, e', he', ho', .inr hsub'⟩,
    fun h => hne (by decide) ((hcovers ha₂ ho₂ ht₂ hapart₂).mpr h),
    fun h => hne (by decide) ((hcovers ha₃ ho₃ ht₃ hapart₃).mpr h)⟩

end DebugSymbols
