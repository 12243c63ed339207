import DebugSymbols.Proofs.Deduplication
import DebugSymbols.Proofs.Resumption

/-!
Structures that still lack members.  One that is pending is to be compared with other entries
through the entry that it was made for.  That entry is looked up as the first one that got the type
of the structure, and it need not be: a declaration may have come before, or a definition that
the structure described when it had fewer members yet.  Then the structure is compared as it
stands (`describesStruct_of_pending`).
-/

namespace DebugSymbols

open Importer

namespace Importer

variable {i : Importer} {scope : Scope} {σ τ : History} {s : Session} {d d' : Die} {o : Ordinal}
  {id : StructId} {def_ : StructDef}

/-- A session comes to a state, which may be in the middle of what it was told to do. -/
def ComesTo (i : Importer) (s t : Session) : Prop :=
  ∃ τ, i.Trace anywhere ⟨s, []⟩ τ ∧ τ.session = t

/-- It comes to the states in which it has done what it was told to do. -/
theorem comesTo_performAll (hi : i.info.Indexed) (pointerSize : UInt64) (calls : List Call)
    (commands : List Command) :
    i.ComesTo (newSession (Host.built pointerSize calls))
      (i.performAll commands (newSession (Host.built pointerSize calls))) := by
  obtain ⟨τ, htrace, hτ, -⟩ := trace_performAll hi (idle_start pointerSize calls) commands
  exact ⟨τ, htrace, hτ⟩

/-- The type of a structure is that of declarations and definitions only. -/
theorem Sound.declares_or_defines (hs : i.Sound σ) {c : Die} (hc : σ.session.Denotes c o)
    (hrecord : σ.session.Record id o) : c.isDeclaration = .ok true ∨ c.DefinesRecord := by
  obtain ⟨t, ht, htranslates⟩ := hc
  obtain ⟨def_, hget, rfl⟩ := hrecord
  rw [hs.coherent.structs hget] at ht
  cases ht
  have hdefinition : (def_.shape id).IsDefinition := def_.isDefinition_shape id
  dsimp only at htranslates
  unfold Session.Translates at htranslates
  split at htranslates
  case h_1 | h_2 | h_3 | h_4 =>
    obtain ⟨inner, heq, -⟩ := htranslates
    rw [heq] at hdefinition
    exact hdefinition.elim
  case h_5 =>
    obtain ⟨inner, offset, heq, -⟩ := htranslates
    rw [heq] at hdefinition
    exact hdefinition.elim
  case h_6 =>
    obtain ⟨name, heq, -⟩ := htranslates
    rw [heq] at hdefinition
    exact hdefinition.elim
  case h_7 =>
    obtain ⟨encoding, size, expected, -, -, hbase⟩ := htranslates
    exact absurd hdefinition (baseShape?_not_isDefinition hbase)
  case h_8 =>
    rw [htranslates] at hdefinition
    exact hdefinition.elim
  case h_9 htag | h_10 htag | h_11 htag =>
    split at htranslates
    · rename_i hdeclaration
      exact .inl hdeclaration
    · rename_i hdeclaration
      refine .inr ⟨?_, hdeclaration⟩
      unfold StructDef.shape at htranslates
      split at htranslates
      · rw [htranslates.1]
        rfl
      · rw [htranslates.1]
        rfl
    · exact htranslates.elim
  case h_12 => exact htranslates.elim

/-- No two entries are pending with one type. -/
theorem Attributed.pending_unique (ha : i.Attributed σ) (hs : i.Sound σ) {x y : UInt64}
    (hx : σ.session.cache.type? x = some (o, true))
    (hy : σ.session.cache.type? y = some (o, true)) : x = y := by
  obtain ⟨-, id, -, -, -, hmade, ⟨def_, hget, hordinal⟩, -⟩ := hs.pending hx
  obtain ⟨-, id', -, -, -, hmade', ⟨def', hget', hordinal'⟩, -⟩ := hs.pending hy
  obtain rfl := hs.coherent.struct_eq hget hget' (hordinal.trans hordinal'.symm)
  exact ha.unique hmade hmade'

/-- How a structure that is pending is compared with an entry.  The first entry that got its type
decides about that. -/
inductive Compared (i : Importer) (s : Session) (d : Die) (o : Ordinal) (id : StructId)
    (d' : Die) : Prop
  | throughOrigin :
      s.cache.typeOffset? o = some d.offset →
      i.describesStruct s id d' = sameLayout d d' → Compared i s d o id d'
  | asItStands {x : UInt64} {c : Die} :
      s.cache.typeOffset? o = some x → x ≠ d.offset → i.info.dieAt x = .ok c →
      s.cache.type? x = some (o, false) → c.isDeclaration = .ok true ∨ c.DefinesRecord →
      i.describesStruct s id d' = describesRecord s.host id d' → Compared i s d o id d'

theorem compared_of_pending (hs : i.Sound σ) (ha : i.Attributed σ)
    (hc : σ.session.cache.Consistent) (hat : i.info.dieAt d.offset = .ok d)
    (htype : σ.session.cache.type? d.offset = some (o, true))
    (hget : σ.session.host.database.structDef? id = some def_) (ho : def_.ordinal = o)
    (d' : Die) : i.Compared σ.session d o id d' := by
  obtain ⟨x, hx⟩ := hc.indexed htype
  have hcompare := hs.describesStruct_eq hget d'
  rw [ho] at hcompare
  by_cases hfirst : x = d.offset
  · subst hfirst
    have horigin : pendingOrigin? σ.session o = some d.offset := by
      simp [pendingOrigin?, hx, OffsetCache.isPending, htype]
    rw [horigin] at hcompare
    refine .throughOrigin hx (hcompare.trans ?_)
    change (do sameLayout (← i.info.dieAt d.offset) d') = _
    rw [hat]
    rfl
  · obtain ⟨pending, hxtype⟩ := hs.origins hx
    have hpending : pending = false := by
      cases pending with
      | false => rfl
      | true => exact absurd (ha.pending_unique hs hxtype htype) hfirst
    subst hpending
    have horigin : pendingOrigin? σ.session o = none := by
      simp [pendingOrigin?, hx, OffsetCache.isPending, hxtype]
    rw [horigin] at hcompare
    obtain ⟨c, hatc, hdenotes⟩ := hs.types ⟨_, hxtype⟩
    exact .asItStands hx hfirst hatc hxtype
      (hs.declares_or_defines hdenotes ⟨def_, hget, ho⟩) hcompare

/-- An entry that agrees with the pending one is recognized just if that was the first one. -/
theorem Compared.recognizes_iff (h : i.Compared s d o id d')
    (hget : s.host.structDef? id = some def_) (hdef : d.tag.isRecord = true) (htag : d'.tag = d.tag)
    {ps : List (String × UInt64)} (hplaces : d.places = .ok ps) (hplaces' : d'.places = .ok ps)
    (hproper : Listing.Proper ps) (hlacks : ¬ ps ⊆ (Listing.ofStruct def_).pairs) :
    i.describesStruct s id d' = .ok true ↔ s.cache.typeOffset? o = some d.offset := by
  cases h with
  | throughOrigin hfirst hcompare =>
    have hsame : sameLayout d d' = .ok true := by
      rw [sameLayout_congr htag hplaces' hplaces]
      exact sameLayout_self hdef hplaces hproper
    exact iff_of_true (hcompare.trans hsame) hfirst
  | @asItStands x c hx hne _ _ _ hcompare =>
    refine iff_of_false (fun hdescribes => hlacks ?_) fun hfirst => hne ?_
    · rw [hcompare] at hdescribes
      obtain ⟨-, qs, hqs, -, hsub⟩ := of_describesRecord hget hdescribes
      rw [hplaces'] at hqs
      cases hqs
      exact hsub
    · rw [hx] at hfirst
      exact Option.some.inj hfirst

end Importer

/-- In whatever state a session is, a structure that is pending is compared with other entries
through the entry that it was made for, if that was the first to get its type, and as it stands
otherwise.  While it lacks members, it recognizes what agrees with its own entry just in the first
case. -/
theorem describesStruct_of_pending {info : DebugInfo} {config : Config} {pointerSize : UInt64}
    {calls : List Call} {s : Session}
    (hs : (Importer.mk info config).ComesTo (newSession (Host.built pointerSize calls)) s)
    {d : Die} (hat : info.dieAt d.offset = .ok d) {o : Ordinal} {id : StructId} {def_ : StructDef}
    (htype : s.cache.type? d.offset = some (o, true))
    (hget : s.host.database.structDef? id = some def_) (ho : def_.ordinal = o) (d' : Die) :
    Importer.Compared ⟨info, config⟩ s d o id d' ∧
      ∀ ps, d.places = .ok ps → d'.places = .ok ps → d'.tag = d.tag → Listing.Proper ps →
        ¬ ps ⊆ (Listing.ofStruct def_).pairs →
        ((Importer.mk info config).describesStruct s id d' = .ok true ↔
          s.cache.typeOffset? o = some d.offset) := by
  let i : Importer := ⟨info, config⟩
  obtain ⟨τ, htrace, rfl⟩ := hs
  have hidle : i.Idle ⟨newSession (Host.built pointerSize calls), []⟩ :=
    idle_start pointerSize calls
  have hsound : i.Sound τ := Trace.sound hidle.sound htrace
  have hattributed : i.Attributed τ :=
    Trace.attributed hidle.sound (attributed_start _) htrace
  have hconsistent : τ.session.cache.Consistent :=
    Trace.consistent htrace OffsetCache.Consistent.empty
  have hcompared := compared_of_pending hsound hattributed hconsistent hat htype hget ho d'
  refine ⟨hcompared, fun ps hplaces hplaces' htag hproper hlacks => ?_⟩
  obtain ⟨d₀, -, -, hat₀, hdef, -⟩ := hsound.pending htype
  rw [hat] at hat₀
  cases hat₀
  exact hcompared.recognizes_iff (by rwa [hsound.structDef?]) hdef.1 htag hplaces hplaces' hproper
    hlacks

/-- A declaration of a structure `n`, and two definitions of it with a member `p`, which is a
pointer to the first definition. -/
def foretold : Sections := .inPlace
  ⟨#[1, 17, 1, 0, 0, 2, 19, 0, 3, 8, 60, 25, 0, 0, 3, 19, 1, 3, 8, 0, 0, 4, 13, 0, 3, 8, 73, 19, 56,
    11, 0, 0, 5, 15, 0, 73, 19, 0, 0, 0]⟩
  ⟨#[41, 0, 0, 0, 4, 0, 0, 0, 0, 0, 4, 1, 2, 110, 0, 3, 110, 0, 4, 112, 0, 39, 0, 0, 0, 0, 0, 3,
    110, 0, 4, 112, 0, 39, 0, 0, 0, 0, 0, 5, 15, 0, 0, 0, 0]⟩

/-- The declaration, at offset 12, was the first one.  So the structure does not recognize the
second definition, at offset 27, although that agrees with the first one, at offset 15. -/
theorem describesStruct_of_pending_foretold :
    ∃ info d d' def_, DebugInfo.decode foretold = .ok info ∧ info.dieAt 15 = .ok d ∧
      info.dieAt 27 = .ok d' ∧
      let i : Importer := ⟨info, {}⟩
      let s := i.performAll [.runTypes] (newSession (Host.built 4 []))
      i.ComesTo (newSession (Host.built 4 [])) s ∧ d.offset = 15 ∧
        s.cache.type? d.offset = some (⟨1⟩, true) ∧ s.cache.typeOffset? ⟨1⟩ = some 12 ∧
        s.host.database.structDef? ⟨0⟩ = some def_ ∧ def_.ordinal = ⟨1⟩ ∧
        i.Compared s d ⟨1⟩ ⟨0⟩ d' ∧ sameLayout d d' = .ok true ∧
        i.describesStruct s ⟨0⟩ d' ≠ .ok true := by
  have hsize : foretold.entries.size < UInt64.size := by decide
  have hrun : (DebugInfo.decode foretold).toOption.any (fun info =>
      (info.dieAt 15).toOption.any fun d => (info.dieAt 27).toOption.any fun d' =>
        let s := (Importer.mk info {}).performAll [.runTypes] (newSession (Host.built 4 []))
        (s.host.database.structDef? ⟨0⟩).any fun def_ =>
          decide (d.offset = 15 ∧ s.cache.type? d.offset = some (⟨1⟩, true) ∧
            s.cache.typeOffset? ⟨1⟩ = some 12 ∧ def_.ordinal = ⟨1⟩ ∧
            def_.members.isEmpty = true ∧ d.places = .ok [("p", 0)] ∧
            d'.places = .ok [("p", 0)] ∧ d'.tag = d.tag ∧ d.tag.isRecord = true)) = true := by
    decide +kernel
  obtain ⟨info, hdecode, hrun⟩ := Except.of_any_toOption hrun
  obtain ⟨d, hat, hrun⟩ := Except.of_any_toOption hrun
  obtain ⟨d', hat', hrun⟩ := Except.of_any_toOption hrun
  obtain ⟨def_, hget, hrun⟩ := (Option.any_eq_true _ _).mp hrun
  obtain ⟨hoffset, htype, hfirst, ho, hempty, hplaces, hplaces', htag, hrecord⟩ :=
    of_decide_eq_true hrun
  let i : Importer := ⟨info, {}⟩
  have hreaches := comesTo_performAll (i := i) (DebugInfo.indexed_of_decode hdecode hsize) 4 []
    [.runTypes]
  have hatd : info.dieAt d.offset = .ok d := by rwa [hoffset]
  obtain ⟨hcompared, hrecognizes⟩ :=
    describesStruct_of_pending hreaches hatd htype hget ho d'
  have hproper : Listing.Proper [("p", 0)] := by
    unfold Listing.Proper Listing.names
    decide
  have hlacks : ¬ [("p", 0)] ⊆ (Listing.ofStruct def_).pairs := by
    simp [Listing.ofStruct, Listing.complete, List.isEmpty_iff.mp hempty]
  refine ⟨info, d, d', def_, hdecode, hat, hat', hreaches, hoffset, htype, hfirst, hget, ho,
    hcompared, ?_, fun hdescribes => ?_⟩
  · rw [sameLayout_congr htag hplaces' hplaces]
    exact sameLayout_self hrecord hplaces hproper
  · have horigin := (hrecognizes _ hplaces hplaces' htag hproper hlacks).mp hdescribes
    rw [hfirst, hoffset] at horigin
    cases horigin

end DebugSymbols
