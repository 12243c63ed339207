import DebugSymbols.Import.Run
import DebugSymbols.Proofs.Import.History

/-!
The invariant of an import.  `Sound` ties the cache to the database: whatever the cache calls a
type is the translation of its entry.  `Change.sound` keeps it, and `Trace.extends` says that
nothing that is known about types is lost.
-/

namespace DebugSymbols.Importer

variable {i : Importer} {scope : Scope} {σ τ : History}

/-- What holds of every session that began with nothing. -/
structure Sound (i : Importer) (σ : History) : Prop where
  coherent : σ.session.host.database.Coherent
  accepts : ∀ c, σ.session.host.refuses c = false
  types : ∀ {x o}, σ.session.TypeAt x o → ∃ d, i.info.dieAt x = .ok d ∧ σ.session.Denotes d o
  grounded : ∀ {x o}, σ.session.TypeAt x o → σ.session.host.database.Grounded o
  origins : ∀ {o x}, σ.session.cache.typeOffset? o = some x → σ.session.TypeAt x o
  uncached : ∀ x ∈ σ.session.resolving, σ.session.cache.get? x = none
  nodup : σ.session.resolving.Nodup
  chain : σ.session.resolving.IsChain fun x y => i.Refers y x
  makers : ∀ {x id}, (x, id) ∈ σ.makers →
    (∃ d, i.info.dieAt x = .ok d ∧ d.DefinesRecord) ∧
      (x ∈ σ.session.resolving ∨ σ.session.cache.has x = true)
  pending : ∀ {x o}, σ.session.cache.type? x = some (o, true) →
    ∃ d id layout, i.info.dieAt x = .ok d ∧ d.DefinesRecord ∧ (x, id) ∈ σ.makers ∧
      σ.session.Record id o ∧ d.layout = .ok layout

/-- An entry that is neither cached nor being resolved has no structure yet. -/
theorem Sound.fresh (hs : i.Sound σ) {x : UInt64} (hget : σ.session.cache.get? x = none)
    (hmem : x ∉ σ.session.resolving) : σ.Fresh x := by
  intro id hmade
  rcases (hs.makers hmade).2 with hresolving | hhas
  · exact hmem hresolving
  · simp [OffsetCache.has, hget] at hhas

/-! ## The cache -/

theorem type?_remember {c : OffsetCache} {x : UInt64} (h : c.get? x = none) (out : Outcome)
    (y : UInt64) :
    (remember x c out).type? y =
      match out with
      | .type o pending => if y = x then some (o, pending) else c.type? y
      | _ => c.type? y := by
  cases out with
  | type o pending => exact OffsetCache.type?_markType (OffsetCache.isOpen_of_get? h) o pending y
  | useless => exact OffsetCache.type?_markUseless c x y
  | deferred => rfl

theorem type?_eq_none_of_get? {c : OffsetCache} {x : UInt64} (h : c.get? x = none) :
    c.type? x = none := by
  rw [OffsetCache.type?_eq_none]
  intro o pending heq
  rw [h] at heq
  cases heq

/-- An entry that is done with is cached from then on, unless it was deferred. -/
theorem get?_remember_of_ne {c : OffsetCache} {x y : UInt64} (out : Outcome) (hxy : y ≠ x) :
    (remember x c out).get? y = c.get? y := by
  cases out with
  | type o pending => simp [remember, OffsetCache.get?_markType, hxy]
  | useless => simp [remember, OffsetCache.get?_markUseless, hxy]
  | deferred => rfl

/-! ## Growth -/

theorem Creates.host {s : Session} {d : Die} {id : StructId} {h : Host}
    (hc : i.Creates s d id h) (hcoherent : s.host.database.Coherent) : s.host.Extends h := by
  obtain ⟨name, hadd, -⟩ := hc.added
  exact Host.extends_addStruct? hcoherent hadd

theorem Change.extends (hs : i.Sound σ) (hc : i.Change scope σ τ) :
    σ.session.Extends τ.session := by
  cases hc with
  | note => exact ⟨.refl _, id⟩
  | grow hgrows => exact ⟨hgrows.extends_, id⟩
  | create hhead _ hcreate => exact ⟨hcreate.host hs.coherent, id⟩
  | attach _ hattach => exact ⟨Host.extends_addStructMember? hattach.added, id⟩
  | dismiss =>
    refine ⟨.refl _, fun ⟨pending, ht⟩ => ⟨pending, ?_⟩⟩
    rwa [OffsetCache.type?_markUseless]
  | place =>
    refine ⟨.refl _, fun ⟨pending, ht⟩ => ⟨pending, ?_⟩⟩
    rwa [OffsetCache.type?_markPlaced]
  | enter => exact ⟨.refl _, id⟩
  | @leave d rest out hstack hdie hfinding =>
    have hget := hs.uncached d.offset (by simp [hstack])
    refine ⟨.refl _, fun {x o} ⟨pending, ht⟩ => ⟨pending, ?_⟩⟩
    simp only
    rw [type?_remember hget]
    cases out with
    | type o' pending' =>
      have hne : x ≠ d.offset := by
        rintro rfl
        rw [type?_eq_none_of_get? hget] at ht
        cases ht
      simpa [hne] using ht
    | useless => exact ht
    | deferred => exact ht
  | @clear d _ hclear =>
    refine ⟨.refl _, fun {x o} ⟨pending, ht⟩ => ?_⟩
    simp only [Session.TypeAt, OffsetCache.type?_clearPending]
    split
    · rename_i heq
      subst heq
      exact ⟨false, by simp [ht]⟩
    · exact ⟨pending, ht⟩

theorem Finding.denotes {d : Die} {o : Ordinal} {pending : Bool}
    (h : i.Finding σ d (.type o pending)) : σ.session.Denotes d o := by
  cases h with
  | plain _ _ hd => exact hd
  | derived _ _ hd => exact hd
  | known _ _ hd => exact hd
  | made hmade => exact hmade.denotes

theorem baseShape?_inner? {encoding : Int} {size : UInt64} {shape : TypeShape} {expected : Bool}
    (h : baseShape? encoding size = some (shape, expected)) :
    shape.inner? = none ∧ ∀ target, shape ≠ .typedef target := by
  unfold baseShape? at h
  simp only at h
  split at h <;> simp only [Option.some.injEq, Prod.mk.injEq, reduceCtorEq] at h
  all_goals
    rw [← h.1]
    exact ⟨rfl, nofun⟩

/-- The size of a type that is not made from another one is its own. -/
theorem grounded_of_denotes {s : Session} {d : Die} {o : Ordinal}
    (hmodifier : d.tag.isModifier = false) (h : s.Denotes d o) :
    s.host.database.Grounded o := by
  obtain ⟨t, ht, htranslates⟩ := h
  unfold Session.Translates at htranslates
  split at htranslates
  case h_1 htag | h_2 htag | h_3 htag | h_4 htag | h_5 htag | h_6 htag =>
    rw [htag] at hmodifier
    cases hmodifier
  case h_7 =>
    obtain ⟨encoding, size, expected, -, -, hbase⟩ := htranslates
    exact .own ht (baseShape?_inner? hbase).1 (baseShape?_inner? hbase).2
  case h_8 => exact .own ht (by rw [htranslates]; rfl) (by simp [htranslates])
  case h_9 | h_10 | h_11 =>
    split at htranslates
    · rcases htranslates with hshape | hdef
      · exact .own ht (by rw [hshape]; rfl) (by simp [hshape])
      · exact .of_isDefinition ht hdef
    · refine .of_isDefinition ht ?_
      unfold Session.Defines at htranslates
      split at htranslates <;> simp_all [TypeShape.IsDefinition]
    · exact htranslates.elim
  case h_12 => exact htranslates.elim

theorem Finding.grounded {d : Die} {o : Ordinal} {pending : Bool}
    (h : i.Finding σ d (.type o pending)) : σ.session.host.database.Grounded o := by
  cases h with
  | plain _ hmodifier hd => exact grounded_of_denotes hmodifier hd
  | derived _ _ _ hgrounded _ => exact hgrounded
  | known hdef _ hd => exact grounded_of_denotes (isModifier_of_isRecord hdef.1) hd
  | made hmade => exact grounded_of_denotes (isModifier_of_isRecord hmade.defines.1) hmade.denotes

theorem Change.makers (hc : i.Change scope σ τ) : σ.makers ⊆ τ.makers := by
  cases hc with
  | create => exact List.subset_cons_self _ _
  | _ => exact List.Subset.refl _

/-- A type is new only when its entry is done with. -/
theorem Change.typeAt_cases (hs : i.Sound σ) (hc : i.Change scope σ τ) {x : UInt64} {o : Ordinal}
    {pending : Bool} (ht : τ.session.cache.type? x = some (o, pending)) :
    (∃ pending', σ.session.cache.type? x = some (o, pending') ∧
      (pending = true → pending' = true)) ∨
      ∃ d, d.offset = x ∧ σ.session.resolving.head? = some x ∧ i.info.dieAt x = .ok d ∧
        i.Finding σ d (.type o pending) := by
  cases hc with
  | note | grow | create | attach | enter => exact .inl ⟨pending, ht, id⟩
  | dismiss =>
    rw [OffsetCache.type?_markUseless] at ht
    exact .inl ⟨pending, ht, id⟩
  | place =>
    rw [OffsetCache.type?_markPlaced] at ht
    exact .inl ⟨pending, ht, id⟩
  | @leave d rest out hstack hdie hfinding =>
    have hget := hs.uncached d.offset (by simp [hstack])
    simp only at ht
    rw [type?_remember hget] at ht
    cases out with
    | type o' pending' =>
      by_cases hx : x = d.offset
      · subst hx
        simp only [if_true, Option.some.injEq, Prod.mk.injEq] at ht
        obtain ⟨rfl, rfl⟩ := ht
        exact .inr ⟨d, rfl, by simp [hstack], hdie, hfinding⟩
      · exact .inl ⟨pending, by simpa [hx] using ht, id⟩
    | useless => exact .inl ⟨pending, ht, id⟩
    | deferred => exact .inl ⟨pending, ht, id⟩
  | @clear d _ hclear =>
    simp only [OffsetCache.type?_clearPending] at ht
    split at ht
    · rename_i heq
      subst heq
      obtain ⟨⟨o', pending'⟩, hget, heq⟩ := Option.map_eq_some_iff.mp ht
      cases heq
      exact .inl ⟨pending', hget, nofun⟩
    · exact .inl ⟨pending, ht, id⟩

theorem has_remember {c : OffsetCache} {x y : UInt64} (out : Outcome) (h : c.has y = true) :
    (remember x c out).has y = true := by
  unfold OffsetCache.has at h ⊢
  cases out with
  | type o pending =>
    rw [remember, OffsetCache.get?_markType]
    split
    · rfl
    · exact h
  | useless =>
    rw [remember, OffsetCache.get?_markUseless]
    split
    · rfl
    · exact h
  | deferred => exact h

/-- What is cached stays cached. -/
theorem Change.has (hc : i.Change scope σ τ) {x : UInt64} (h : σ.session.cache.has x = true) :
    τ.session.cache.has x = true := by
  cases hc with
  | note | grow | create | attach | enter => exact h
  | @dismiss y => exact has_remember (x := y) .useless h
  | place =>
    unfold OffsetCache.has at h ⊢
    simp only [OffsetCache.get?_markPlaced]
    split
    · rfl
    · exact h
  | leave => exact has_remember _ h
  | @clear d =>
    unfold OffsetCache.has at h ⊢
    simp only [OffsetCache.get?_clearPending]
    split
    · rename_i heq
      subst heq
      split
      · rfl
      · exact h
    · exact h

/-! ## The invariant -/

theorem Change.sound_types (hs : i.Sound σ) (hc : i.Change scope σ τ) {x : UInt64} {o : Ordinal}
    (ht : τ.session.TypeAt x o) : ∃ d, i.info.dieAt x = .ok d ∧ τ.session.Denotes d o := by
  have he := hc.extends hs
  obtain ⟨pending, ht⟩ := ht
  rcases hc.typeAt_cases hs ht with ⟨pending', hold, -⟩ | ⟨d, -, -, hdie, hfinding⟩
  · obtain ⟨d, hdie, hd⟩ := hs.types ⟨pending', hold⟩
    exact ⟨d, hdie, hd.mono he⟩
  · exact ⟨d, hdie, hfinding.denotes.mono he⟩

theorem Change.sound_grounded (hs : i.Sound σ) (hc : i.Change scope σ τ) {x : UInt64} {o : Ordinal}
    (ht : τ.session.TypeAt x o) : τ.session.host.database.Grounded o := by
  have he := (hc.extends hs).host.database
  obtain ⟨pending, ht⟩ := ht
  rcases hc.typeAt_cases hs ht with ⟨pending', hold, -⟩ | ⟨d, -, -, -, hfinding⟩
  · exact (hs.grounded ⟨pending', hold⟩).mono he
  · exact hfinding.grounded.mono he

theorem Change.sound_pending (hs : i.Sound σ) (hc : i.Change scope σ τ) {x : UInt64} {o : Ordinal}
    (ht : τ.session.cache.type? x = some (o, true)) :
    ∃ d id layout, i.info.dieAt x = .ok d ∧ d.DefinesRecord ∧ (x, id) ∈ τ.makers ∧
      τ.session.Record id o ∧ d.layout = .ok layout := by
  have he := hc.extends hs
  rcases hc.typeAt_cases hs ht with ⟨pending', hold, hp⟩ | ⟨d, rfl, -, hdie, hfinding⟩
  · rw [hp rfl] at hold
    obtain ⟨d, id, layout, hdie, hdef, hmade, hrecord, hlayout⟩ := hs.pending hold
    exact ⟨d, id, layout, hdie, hdef, hc.makers hmade, hrecord.mono he, hlayout⟩
  · cases hfinding with
    | made hmade =>
      obtain ⟨layout, hlayout, -⟩ := hmade.members
      exact ⟨d, _, layout, hdie, hmade.defines, hc.makers hmade.maker, hmade.record.mono he,
        hlayout⟩

theorem Change.sound_origins (hs : i.Sound σ) (hc : i.Change scope σ τ) {o : Ordinal} {x : UInt64}
    (h : τ.session.cache.typeOffset? o = some x) : τ.session.TypeAt x o := by
  have he := hc.extends hs
  cases hc with
  | note | grow | create | attach | enter => exact he.types (hs.origins h)
  | dismiss =>
    simp only [OffsetCache.typeOffset?_markUseless] at h
    exact he.types (hs.origins h)
  | place =>
    simp only [OffsetCache.typeOffset?_markPlaced] at h
    exact he.types (hs.origins h)
  | @leave d rest out hstack hdie hfinding =>
    have hget := hs.uncached d.offset (by simp [hstack])
    cases out with
    | type o' pending =>
      simp only [remember, OffsetCache.typeOffset?_markType (OffsetCache.isOpen_of_get? hget)] at h
      split at h
      · rename_i ho
        subst ho
        cases horigin : σ.session.cache.typeOffset? o with
        | some y =>
          rw [horigin] at h
          cases h
          exact he.types (hs.origins horigin)
        | none =>
          rw [horigin] at h
          cases h
          refine ⟨pending, ?_⟩
          simp [type?_remember hget]
      · exact he.types (hs.origins h)
    | useless =>
      simp only [remember, OffsetCache.typeOffset?_markUseless] at h
      exact he.types (hs.origins h)
    | deferred => exact he.types (hs.origins h)
  | clear =>
    simp only [OffsetCache.typeOffset?_clearPending] at h
    exact he.types (hs.origins h)

theorem Change.sound_uncached (hs : i.Sound σ) (hc : i.Change scope σ τ) {x : UInt64}
    (hx : x ∈ τ.session.resolving) : τ.session.cache.get? x = none := by
  cases hc with
  | note | grow | create | attach => exact hs.uncached x hx
  | @dismiss y hy =>
    have hne : x ≠ y := fun heq => hy (heq ▸ hx)
    simp only [OffsetCache.get?_markUseless, hne, if_false]
    exact hs.uncached x hx
  | place hidle =>
    simp only [hidle] at hx
    cases hx
  | enter hget =>
    rcases List.mem_cons.mp hx with rfl | hx
    · exact hget
    · exact hs.uncached x hx
  | @leave d rest out hstack hdie hfinding =>
    have hnodup := hs.nodup
    rw [hstack] at hnodup
    have hne : x ≠ d.offset := fun heq => (List.nodup_cons.mp hnodup).1 (heq ▸ hx)
    simp only [get?_remember_of_ne out hne]
    exact hs.uncached x (by simp [hstack, hx])
  | clear _ hclear =>
    simp only [hclear.idle] at hx
    cases hx

/-- A structure is made for an entry that is being resolved, and entries that define structures
are not deferred. -/
theorem Change.sound_makers (hs : i.Sound σ) (hc : i.Change scope σ τ) {x : UInt64}
    {id : StructId} (hmade : (x, id) ∈ τ.makers) :
    (∃ d, i.info.dieAt x = .ok d ∧ d.DefinesRecord) ∧
      (x ∈ τ.session.resolving ∨ τ.session.cache.has x = true) := by
  have has {x : UInt64} := hc.has (x := x)
  cases hc with
  | note | grow | attach | dismiss | place | clear =>
    exact (hs.makers hmade).imp_right (Or.imp_right has)
  | enter =>
    exact (hs.makers hmade).imp_right (Or.imp_left (List.mem_cons_of_mem _))
  | create hhead _ hcreate =>
    rcases List.mem_cons.mp hmade with heq | hold
    · cases heq
      exact ⟨⟨_, hcreate.at_, hcreate.defines⟩, .inl (List.mem_of_head? hhead)⟩
    · exact hs.makers hold
  | @leave d rest out hstack hat hfinding =>
    obtain ⟨hdef, hbegun⟩ := hs.makers hmade
    refine ⟨hdef, ?_⟩
    by_cases hx : x = d.offset
    · subst hx
      refine .inr ?_
      have hget := hs.uncached d.offset (by simp [hstack])
      cases out with
      | type o pending =>
        simp [remember, OffsetCache.has, OffsetCache.get?_markType, OffsetCache.isOpen, hget]
      | useless => simp [remember, OffsetCache.has, OffsetCache.get?_markUseless]
      | deferred =>
        obtain ⟨d', hat', hdefines⟩ := hdef
        rw [hat] at hat'
        cases hat'
        cases hfinding with
        | deferred hmodifies =>
          have hrecord := hdefines.1
          rw [hmodifies.isRecord_eq_false] at hrecord
          cases hrecord
    · rw [hstack, List.mem_cons, or_iff_right hx] at hbegun
      exact hbegun.imp_right (has_remember out)

theorem Change.sound (hs : i.Sound σ) (hc : i.Change scope σ τ) : i.Sound τ where
  coherent := (hc.extends hs).host.coherent hs.coherent
  accepts c := by
    rw [(hc.extends hs).host.refuses]
    exact hs.accepts c
  types := hc.sound_types hs
  grounded := hc.sound_grounded hs
  origins := hc.sound_origins hs
  uncached _ := hc.sound_uncached hs
  nodup := by
    cases hc with
    | enter _ hx => exact List.nodup_cons.mpr ⟨hx, hs.nodup⟩
    | leave hstack =>
      have hnodup := hs.nodup
      rw [hstack] at hnodup
      exact (List.nodup_cons.mp hnodup).2
    | _ => exact hs.nodup
  chain := by
    cases hc with
    | enter _ _ _ hask =>
      simp only
      cases hstack : σ.session.resolving with
      | nil => exact .singleton _
      | cons y rest =>
        rw [hstack] at hask
        exact List.isChain_cons_cons.mpr ⟨hask, hstack ▸ hs.chain⟩
    | leave hstack =>
      have hchain := hs.chain
      rw [hstack] at hchain
      cases hchain with
      | singleton => exact .nil
      | cons_cons _ hrest => exact hrest
    | _ => exact hs.chain
  makers := hc.sound_makers hs
  pending := hc.sound_pending hs

/-! ## Traces -/

theorem Trace.sound (hs : i.Sound σ) (ht : i.Trace scope σ τ) : i.Sound τ := by
  induction ht with
  | refl => exact hs
  | tail _ hc ih => exact hc.sound ih

theorem Trace.extends (hs : i.Sound σ) (ht : i.Trace scope σ τ) :
    σ.session.Extends τ.session := by
  induction ht with
  | refl => exact .refl _
  | tail ht hc ih => exact ih.trans (hc.extends (Trace.sound hs ht))

theorem Change.retains (hs : i.Sound σ) (hc : i.Change scope σ τ) :
    σ.session.host.database.Retains τ.session.host.database := by
  cases hc with
  | note | dismiss | place | enter | leave | clear => exact .refl _
  | grow _ hretains => exact hretains
  | create _ _ hcreates =>
    obtain ⟨name, hadd, -⟩ := hcreates.added
    obtain ⟨db, hdb, rfl⟩ := Host.addStruct?_eq_some hadd
    obtain ⟨d, hadds⟩ := Database.addsStruct hs.coherent hdb
    exact hadds.retains
  | attach _ hattaches =>
    obtain ⟨db, hdb, rfl⟩ := Host.addStructMember?_eq_some hattaches.added
    obtain ⟨d, hadds⟩ := Database.addsMember hdb
    exact hadds.retains

theorem Trace.retains (hs : i.Sound σ) (ht : i.Trace scope σ τ) :
    σ.session.host.database.Retains τ.session.host.database := by
  induction ht with
  | refl => exact .refl _
  | tail ht hc ih => exact ih.trans (hc.retains (Trace.sound hs ht))

/-- An entry that has a type was found to be that at some point. -/
theorem Trace.found (hs : i.Sound σ) (hstart : ∀ x o, ¬ σ.session.TypeAt x o)
    (ht : i.Trace scope σ τ) {x : UInt64} {o : Ordinal} {d : Die} (htype : τ.session.TypeAt x o)
    (hat : i.info.dieAt x = .ok d) :
    ∃ μ pending, i.Trace scope σ μ ∧ i.Trace scope μ τ ∧
      μ.session.resolving.head? = some x ∧ i.Finding μ d (.type o pending) := by
  induction ht with
  | refl => exact (hstart x o htype).elim
  | @tail μ ν ht hc ih =>
    obtain ⟨pending, htype⟩ := htype
    rcases hc.typeAt_cases (Trace.sound hs ht) htype with ⟨pending', hold, -⟩ |
      ⟨d', -, hhead, hat', hfinding⟩
    · obtain ⟨υ, pending, hfirst, hlater, hfound⟩ := ih ⟨pending', hold⟩
      exact ⟨υ, pending, hfirst, hlater.tail hc, hfound⟩
    · rw [hat] at hat'
      cases hat'
      exact ⟨μ, pending, ht, .single hc, hhead, hfinding⟩

/-- What an entry is found to be when it is found to be a type, and what lasts, is so of every entry
that has a type. -/
theorem Trace.of_typeAt {P : History → Die → Ordinal → Prop} (hs : i.Sound σ)
    (hstart : ∀ x o, ¬ σ.session.TypeAt x o) (ht : i.Trace scope σ τ)
    (hfound : ∀ {μ d o pending}, i.Trace scope σ μ → i.Finding μ d (.type o pending) → P μ d o)
    (hlast : ∀ {μ ν d o}, i.Trace scope σ μ → i.Change scope μ ν → P μ d o → P ν d o)
    {x : UInt64} {o : Ordinal} {d : Die} (htype : τ.session.TypeAt x o)
    (hat : i.info.dieAt x = .ok d) : P τ d o := by
  obtain ⟨μ, pending, hfirst, hlater, -, hfinding⟩ := Trace.found hs hstart ht htype hat
  clear htype ht
  induction hlater with
  | refl => exact hfound hfirst hfinding
  | tail ht hc ih => exact hlast (hfirst.trans ht) hc ih

/-- The entry that a type comes from stays the same. -/
theorem Change.typeOffset? (hs : i.Sound σ) (hc : i.Change scope σ τ) {o : Ordinal} {x : UInt64}
    (h : σ.session.cache.typeOffset? o = some x) : τ.session.cache.typeOffset? o = some x := by
  cases hc with
  | note | grow | create | attach | enter => exact h
  | dismiss => exact (OffsetCache.typeOffset?_markUseless ..).trans h
  | place => exact (OffsetCache.typeOffset?_markPlaced ..).trans h
  | clear => exact (OffsetCache.typeOffset?_clearPending ..).trans h
  | @leave d rest out hstack =>
    have hopen := OffsetCache.isOpen_of_get? (hs.uncached d.offset (by simp [hstack]))
    cases out with
    | useless => exact (OffsetCache.typeOffset?_markUseless ..).trans h
    | deferred => exact h
    | type o' pending =>
      refine (OffsetCache.typeOffset?_markType hopen ..).trans ?_
      split
      · rename_i heq
        rw [← heq, h]
        rfl
      · exact h

theorem Trace.typeOffset? (hs : i.Sound σ) (ht : i.Trace scope σ τ) {o : Ordinal} {x : UInt64}
    (h : σ.session.cache.typeOffset? o = some x) : τ.session.cache.typeOffset? o = some x := by
  induction ht with
  | refl => exact h
  | tail ht hc ih => exact hc.typeOffset? (Trace.sound hs ht) ih

theorem Trace.makers (ht : i.Trace scope σ τ) : σ.makers ⊆ τ.makers := by
  induction ht with
  | refl => exact List.Subset.refl _
  | tail _ hc ih => exact List.Subset.trans ih hc.makers

theorem Trace.has (ht : i.Trace scope σ τ) {x : UInt64} (h : σ.session.cache.has x = true) :
    τ.session.cache.has x = true := by
  induction ht with
  | refl => exact h
  | tail _ hc ih => exact hc.has ih

theorem Change.weaken {scope' : Scope} (hroots : ∀ x, scope.roots x → scope'.roots x)
    (hrepairs : scope.repairs → scope'.repairs)
    (hc : i.Change scope σ τ) : i.Change scope' σ τ := by
  cases hc with
  | note => exact .note ..
  | grow h₁ h₂ h₃ h₄ => exact .grow _ h₁ h₂ h₃ h₄
  | create h₁ h₂ h₃ => exact .create _ h₁ h₂ h₃
  | attach hfill h => exact .attach _ (hfill.imp_right (And.imp_left hrepairs)) h
  | dismiss h => exact .dismiss _ h
  | place h => exact .place _ h
  | enter h₁ h₂ h₃ hask =>
    refine .enter _ h₁ h₂ h₃ ?_
    cases hstack : σ.session.resolving with
    | nil =>
      rw [hstack] at hask
      exact hroots _ hask
    | cons y rest =>
      rw [hstack] at hask
      exact hask
  | leave h₁ h₂ h₃ => exact .leave _ h₁ h₂ h₃
  | clear h h' => exact .clear _ (hrepairs h) h'

/-- A session that begins with nothing is sound. -/
theorem sound_start {h : Host} (hc : h.database.Coherent) (ha : ∀ c, h.refuses c = false) :
    i.Sound ⟨newSession h, []⟩ where
  coherent := hc
  accepts := ha
  types := by
    rintro x o ⟨pending, ht⟩
    cases ht
  grounded := by
    rintro x o ⟨pending, ht⟩
    cases ht
  origins h := by cases h
  uncached _ h := by cases h
  nodup := .nil
  chain := .nil
  makers h := by cases h
  pending h := by cases h

end DebugSymbols.Importer
