import DebugSymbols.Proofs.Import.Commands
import Mathlib.Data.String.Basic

/-!
Declarations of one name.  What is declared has a type that stands for it (`Database.Stands`), with
the first name that could be had when the declaration was met, and this lasts.  So declarations of
one name have one type, wherever the definition comes, unless the name belongs to something else
altogether and the type that stood in for it was completed in between
(`declared_ordinal_ne_iff`).
-/

namespace DebugSymbols

open Importer

theorem length_underscored (k : Nat) (name : String) :
    (underscored k name).length = name.length + k := by
  induction k generalizing name with
  | zero => rfl
  | succ k ih =>
    have hone : "_".length = 1 := rfl
    rw [underscored, ih, String.length_append]
    omega

namespace Database

variable {db db' : Database} {stated : String} {o o' : Ordinal} {k l : Nat}

theorem Stands.mono (he : db.Extends db') (h : db.Stands stated o k) : db'.Stands stated o k where
  named := he.named h.named
  shape := by
    obtain ⟨t, ht, hshape⟩ := h.shape
    obtain ⟨t', ht', hbecomes⟩ := he.types ht
    refine ⟨t', ht', ?_⟩
    rcases hbecomes.shape with heq | ⟨-, hdefinition⟩
    · rwa [heq]
    · exact .inr hdefinition
  taken j hj := (h.taken j hj).mono he
  foreign hk := (h.foreign hk).mono he

/-- The name belongs to something else.  One type has it with underscores and is complete, and
another one has it with more of them. -/
structure PartedAt (db : Database) (stated : String) (o o' : Ordinal) (k l : Nat) : Prop where
  foreign : db.Foreign stated
  pos : 0 < k
  lt : k < l
  named : db.namedType? (underscored k stated) = some o
  named' : db.namedType? (underscored l stated) = some o'
  complete : ∃ t, db.numberedType? o = some t ∧ t.shape.IsDefinition

def Parted (db : Database) (stated : String) (o o' : Ordinal) : Prop :=
  ∃ k l, db.PartedAt stated o o' k l

theorem PartedAt.ne (h : db.PartedAt stated o o' k l) : o ≠ o' := by
  rintro rfl
  obtain ⟨shape, ht⟩ := numberedType?_of_named h.named
  obtain ⟨shape', ht'⟩ := numberedType?_of_named h.named'
  rw [ht] at ht'
  have hname : underscored k stated = underscored l stated :=
    congrArg NamedType.name (Option.some.inj ht')
  have hlength := congrArg String.length hname
  rw [length_underscored, length_underscored] at hlength
  have hlt := h.lt
  omega

/-- What has the shorter of two names was complete when the longer one was tried. -/
theorem Stands.parted (h : db.Stands stated o k) (h' : db.Stands stated o' l) (hlt : k < l) :
    db.PartedAt stated o o' k l := by
  obtain ⟨t, ht, hshape⟩ := h.shape
  obtain ⟨o₁, t₁, hnamed, ht₁, htaken⟩ := h'.taken k hlt
  rw [h.named] at hnamed
  cases hnamed
  rw [ht] at ht₁
  cases ht₁
  have hcomplete : t.shape.IsDefinition := hshape.resolve_left htaken
  have hforeign : db.Foreign stated := h'.foreign (Nat.zero_lt_of_lt hlt)
  refine ⟨hforeign, Nat.pos_of_ne_zero fun hk => ?_, hlt, h.named, h'.named, t, ht, hcomplete⟩
  -- without underscores the type would have the foreign name
  subst hk
  obtain ⟨o₁, t₁, hnamed, ht₁, -, hdefinition⟩ := hforeign
  have hnamed' : db.namedType? stated = some o := h.named
  rw [hnamed] at hnamed'
  cases hnamed'
  rw [ht] at ht₁
  cases ht₁
  exact hdefinition hcomplete

theorem Stands.ne_iff (h : db.Stands stated o k) (h' : db.Stands stated o' l) :
    o ≠ o' ↔ db.Parted stated o o' ∨ db.Parted stated o' o := by
  constructor
  · intro hne
    rcases Nat.lt_trichotomy k l with hlt | rfl | hgt
    · exact .inl ⟨k, l, h.parted h' hlt⟩
    · exact absurd (Option.some.inj (h.named.symm.trans h'.named)) hne
    · exact .inr ⟨l, k, h'.parted h hgt⟩
  · rintro (⟨_, _, hparted⟩ | ⟨_, _, hparted⟩)
    · exact hparted.ne
    · exact hparted.ne.symm

end Database

namespace Importer

variable {i : Importer} {scope : Scope} {σ τ : History}

/-- All that is declared and has a type has one that stands for it. -/
def AllStand (i : Importer) (σ : History) : Prop :=
  ∀ {x o d stated}, σ.session.TypeAt x o → i.info.dieAt x = .ok d → d.Declares stated →
    ∃ k, σ.session.host.database.Stands stated o k

/-- A declaration that is found to be a type has one that stands for it. -/
theorem Finding.stands {d : Die} {o : Ordinal} {pending : Bool} {stated : String}
    (h : i.Finding σ d (.type o pending)) (hd : d.Declares stated) :
    ∃ k, σ.session.host.database.Stands stated o k := by
  have hdefines : ¬ d.DefinesRecord := fun hdefines =>
    nomatch hd.declaration.symm.trans hdefines.2
  cases h with
  | plain _ _ _ hstands => exact hstands stated hd
  | derived hmodifier =>
    rcases hd.tag with htag | htag
    · rw [isModifier_of_isRecord htag] at hmodifier
      cases hmodifier
    · rw [htag] at hmodifier
      cases hmodifier
  | known hdef => exact absurd hdef hdefines
  | made hmade => exact absurd hmade.defines hdefines

theorem Trace.allStand (hs : i.Sound σ) (hstart : ∀ x o, ¬ σ.session.TypeAt x o)
    (ht : i.Trace scope σ τ) : i.AllStand τ := by
  intro x o d stated htype hat hd
  let P (μ : History) (d : Die) (o : Ordinal) : Prop :=
    d.Declares stated → ∃ k, μ.session.host.database.Stands stated o k
  refine Trace.of_typeAt (P := P) hs hstart ht (fun _ hfinding => hfinding.stands) ?_ htype hat hd
  intro μ ν d o ht hc h hd
  obtain ⟨k, hstands⟩ := h hd
  exact ⟨k, hstands.mono (hc.extends (Trace.sound hs ht)).host.database⟩

end Importer

/-- Two declarations of a name, of which both have become types, have different ones just if the
name belongs to something else than a structure, union or enumeration, and the type of one has
been completed under a name with underscores while the type of the other has more of them. -/
theorem declared_ordinal_ne_iff {sections : Sections} {info : DebugInfo}
    (hdecode : DebugInfo.decode sections = .ok info)
    (hsize : sections.entries.size < UInt64.size) (config : Config) (pointerSize : UInt64)
    (calls : List Call) (commands : List Command) {a b : Die} (ha : info.Holds a)
    (hb : info.Holds b) {stated : String} (hda : a.Declares stated) (hdb : b.Declares stated)
    {oa ob : Ordinal} :
    let s := (Importer.mk info config).performAll commands
      (newSession (Host.built pointerSize calls))
    s.TypeAt a.offset oa → s.TypeAt b.offset ob →
      (oa ≠ ob ↔ s.host.database.Parted stated oa ob ∨ s.host.database.Parted stated ob oa) := by
  intro s hta htb
  let i : Importer := ⟨info, config⟩
  have hi : i.info.Indexed := DebugInfo.indexed_of_decode hdecode hsize
  have hstart : i.Idle ⟨newSession (Host.built pointerSize calls), []⟩ :=
    idle_start pointerSize calls
  obtain ⟨τ, htrace, hτ, -⟩ := trace_performAll hi hstart commands
  have hs : s = τ.session := hτ.symm
  rw [hs] at hta htb ⊢
  have hall : i.AllStand τ := Trace.allStand hstart.sound (fun _ _ => nofun) htrace
  obtain ⟨k, hstands⟩ := hall hta (hi.dieAt_of_holds ha) hda
  obtain ⟨l, hstands'⟩ := hall htb (hi.dieAt_of_holds hb) hdb
  exact hstands.ne_iff hstands'

/-- A base type `n`, a declaration of a structure `n`, its definition with a member `v`, and another
declaration. -/
def displaced : Sections := .inPlace
  ⟨#[1, 17, 1, 0, 0, 2, 36, 0, 3, 8, 11, 11, 62, 11, 0, 0, 3, 19, 0, 3, 8, 60, 25, 0, 0, 4, 19, 1,
    3, 8, 0, 0, 5, 13, 0, 3, 8, 73, 19, 56, 11, 0, 0, 0]⟩
  ⟨#[32, 0, 0, 0, 4, 0, 0, 0, 0, 0, 4, 1, 2, 110, 0, 4, 5, 3, 110, 0, 4, 110, 0, 5, 118, 0, 12, 0,
    0, 0, 0, 0, 3, 110, 0, 0]⟩

/-- The declarations, at offsets 17 and 32, have different types: `n_`, which the definition has
completed, and `n__`. -/
theorem declared_ordinal_ne_iff_displaced :
    ∃ info a b, DebugInfo.decode displaced = .ok info ∧ displaced.entries.size < UInt64.size ∧
      info.Holds a ∧ info.Holds b ∧ a.Declares "n" ∧ b.Declares "n" ∧
      let s := (Importer.mk info {}).performAll [.process 12 .types, .runTypes]
        (newSession (Host.built 4 []))
      s.TypeAt a.offset ⟨2⟩ ∧ s.TypeAt b.offset ⟨3⟩ ∧
        (s.host.database.Parted "n" ⟨2⟩ ⟨3⟩ ∨ s.host.database.Parted "n" ⟨3⟩ ⟨2⟩) := by
  have hsize : displaced.entries.size < UInt64.size := by decide
  have hrun : (DebugInfo.decode displaced).toOption.any (fun info =>
      (info.dieAt 17).toOption.any fun a => (info.dieAt 32).toOption.any fun b =>
        let s := (Importer.mk info {}).performAll [.process 12 .types, .runTypes]
          (newSession (Host.built 4 []))
        decide (a.tag.isRecord = true ∧ a.isDeclaration = .ok true ∧ a.name = .ok "n" ∧
          b.tag.isRecord = true ∧ b.isDeclaration = .ok true ∧ b.name = .ok "n" ∧
          s.cache.type? a.offset = some (⟨2⟩, false) ∧
          s.cache.type? b.offset = some (⟨3⟩, false))) = true := by
    decide +kernel
  obtain ⟨info, hdecode, hrun⟩ := Except.of_any_toOption hrun
  obtain ⟨a, hat, hrun⟩ := Except.of_any_toOption hrun
  obtain ⟨b, hat', hrun⟩ := Except.of_any_toOption hrun
  obtain ⟨htag, hdeclared, hname, htag', hdeclared', hname', htype, htype'⟩ :=
    of_decide_eq_true hrun
  have ha := DebugInfo.holds_of_dieAt hat
  have hb := DebugInfo.holds_of_dieAt hat'
  have hda : a.Declares "n" := ⟨.inl htag, hdeclared, hname⟩
  have hdb : b.Declares "n" := ⟨.inl htag', hdeclared', hname'⟩
  have hne : (⟨2⟩ : Ordinal) ≠ ⟨3⟩ := by decide
  exact ⟨info, a, b, hdecode, hsize, ha, hb, hda, hdb, ⟨false, htype⟩, ⟨false, htype'⟩,
    (declared_ordinal_ne_iff hdecode hsize {} 4 [] [.process 12 .types, .runTypes] ha hb hda hdb
      ⟨false, htype⟩ ⟨false, htype'⟩).mp hne⟩

end DebugSymbols
