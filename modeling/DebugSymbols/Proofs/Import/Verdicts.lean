import DebugSymbols.Proofs.Import.Makers
import DebugSymbols.Proofs.Import.Passes

/-!
Comparisons with structures do not change their results any more once the entry that the
structure was made for is done with, as long as nothing is repaired
(`Change.describesStruct_eq`).
-/

namespace DebugSymbols.Importer

variable {i : Importer} {scope : Scope} {σ τ : History}

/-- The structure was made for an entry that is done with. -/
def Filled (σ : History) (id : StructId) : Prop :=
  ∃ x, (x, id) ∈ σ.makers ∧ x ∉ σ.session.resolving

theorem Change.filled (hs : i.Sound σ) (hc : i.Change scope σ τ) {id : StructId}
    (h : Filled σ id) : Filled τ id := by
  obtain ⟨x, hmade, hdone⟩ := h
  refine ⟨x, hc.makers hmade, fun hresolving => ?_⟩
  have hhas := hc.has ((hs.makers hmade).2.resolve_left hdone)
  simp [OffsetCache.has, (hc.sound hs).uncached x hresolving] at hhas

theorem pendingOrigin?_congr {s t : Session} {o : Ordinal}
    (horigin : t.cache.typeOffset? o = s.cache.typeOffset? o)
    (htype : ∀ x, s.cache.typeOffset? o = some x → t.cache.type? x = s.cache.type? x) :
    pendingOrigin? t o = pendingOrigin? s o := by
  unfold pendingOrigin?
  rw [horigin]
  cases h : s.cache.typeOffset? o with
  | none => rfl
  | some x =>
    have hpending : t.cache.isPending x = s.cache.isPending x := by
      rw [OffsetCache.isPending, htype x h, OffsetCache.isPending]
    simp [hpending]

/-- What becomes of a new entry is not known of any that a type comes from. -/
theorem Sound.type?_remember_of_origin (hs : i.Sound σ) {x y : UInt64} {o : Ordinal}
    (huncached : σ.session.cache.get? x = none) (hy : σ.session.cache.typeOffset? o = some y)
    (out : Outcome) :
    (remember x σ.session.cache out).type? y = σ.session.cache.type? y := by
  obtain ⟨pending, htype⟩ := hs.origins hy
  have hne : y ≠ x := by
    rintro rfl
    rw [type?_eq_none_of_get? huncached] at htype
    cases htype
  rw [type?_remember huncached]
  cases out <;> simp [hne]

/-- A new entry is where a type comes from while that is pending only if it is found to be so. -/
theorem Sound.pendingOrigin?_remember (hs : i.Sound σ) {x : UInt64} {o : Ordinal} {out : Outcome}
    (huncached : σ.session.cache.get? x = none) (hout : out ≠ .type o true) {t : Session}
    (ht : t.cache = remember x σ.session.cache out) :
    pendingOrigin? t o = pendingOrigin? σ.session o := by
  have hold (y : UInt64) (hy : σ.session.cache.typeOffset? o = some y) :
      t.cache.type? y = σ.session.cache.type? y := by
    rw [ht]
    exact hs.type?_remember_of_origin huncached hy out
  cases out with
  | useless =>
    refine pendingOrigin?_congr ?_ hold
    rw [ht]
    exact OffsetCache.typeOffset?_markUseless ..
  | deferred => exact pendingOrigin?_congr (by rw [ht]; rfl) hold
  | type o' pending =>
    have horigin := OffsetCache.typeOffset?_markType
      (OffsetCache.isOpen_of_get? huncached) o' pending o
    by_cases ho : o = o'
    · subst ho
      rw [if_pos rfl] at horigin
      cases hknown : σ.session.cache.typeOffset? o with
      | some y =>
        refine pendingOrigin?_congr ?_ hold
        rw [ht, hknown]
        rw [hknown] at horigin
        exact horigin
      | none =>
        -- the type comes from this entry now, which is not pending
        have hpending : pending = false := by simpa using hout
        subst hpending
        have htype := type?_remember huncached (.type o false) x
        rw [hknown] at horigin
        simp only [remember] at htype ht
        simp [pendingOrigin?, hknown, ht, horigin, OffsetCache.isPending, htype]
    · refine pendingOrigin?_congr ?_ hold
      rw [if_neg ho] at horigin
      rw [ht]
      exact horigin

/-- Only the entry that a structure is made for is found to be pending with its type. -/
theorem Finding.ne_pending (hs : i.Sound σ) (hf : i.Founded σ) {d : Die} {rest : List UInt64}
    {out : Outcome} (hstack : σ.session.resolving = d.offset :: rest) (h : i.Finding σ d out)
    {id : StructId} {def_ : StructDef}
    (hget : σ.session.host.database.structDef? id = some def_) (hfilled : Filled σ id) :
    out ≠ .type def_.ordinal true := by
  rintro rfl
  cases h with
  | made hmade =>
    obtain ⟨def', hget', hordinal⟩ := hmade.record
    cases hs.coherent.struct_eq hget' hget hordinal
    obtain ⟨x, hx, hdone⟩ := hfilled
    rw [hf.unique hx hmade.maker] at hdone
    exact hdone (by simp [hstack])

/-- A pending entry is where its structure comes from, and so only while it is being resolved
something changes about that. -/
theorem Change.pendingOrigin?_eq (hs : i.Sound σ) (hf : i.Founded σ) (hc : i.Change walking σ τ)
    {id : StructId} {def_ : StructDef}
    (hget : σ.session.host.database.structDef? id = some def_) (hfilled : Filled σ id) :
    pendingOrigin? τ.session def_.ordinal = pendingOrigin? σ.session def_.ordinal := by
  cases hc with
  | note | grow | create | attach | enter => rfl
  | dismiss =>
    exact pendingOrigin?_congr (OffsetCache.typeOffset?_markUseless ..)
      fun y _ => OffsetCache.type?_markUseless ..
  | place =>
    exact pendingOrigin?_congr (OffsetCache.typeOffset?_markPlaced ..)
      fun y _ => OffsetCache.type?_markPlaced ..
  | clear hrepairs => exact hrepairs.elim
  | @leave d rest out hstack hat hfinding =>
    have huncached := hs.uncached d.offset (by simp [hstack])
    exact hs.pendingOrigin?_remember huncached (hfinding.ne_pending hs hf hstack hget hfilled) rfl

/-- Only the entry that a structure was made for changes its members, and only while it is being
resolved. -/
theorem Change.structDef?_eq (hs : i.Sound σ) (hf : i.Founded σ) (hc : i.Change walking σ τ)
    {id : StructId} (hfilled : Filled σ id) :
    τ.session.host.database.structDef? id = σ.session.host.database.structDef? id := by
  cases hc with
  | note | dismiss | place | enter | leave | clear => rfl
  | grow hgrows => simp [Database.structDef?, hgrows.structs]
  | @create d id' h _ _ hcreates =>
    obtain ⟨name, hadd, -⟩ := hcreates.added
    obtain ⟨db, hdb, rfl⟩ := Host.addStruct?_eq_some hadd
    obtain ⟨def_, ha⟩ := Database.addsStruct hs.coherent hdb
    obtain ⟨x, hmade, -⟩ := hfilled
    have hne : id ≠ id' := by
      rintro rfl
      exact hf.not_mem_makers ha x hmade
    rw [ha.structDef?, if_neg hne]
  | @attach d id' m h hfill hattaches =>
    obtain ⟨db, hdb, rfl⟩ := Host.addStructMember?_eq_some hattaches.added
    obtain ⟨def_, ha⟩ := Database.addsMember hdb
    obtain ⟨x, hmade, hdone⟩ := hfilled
    have hne : id ≠ id' := by
      rintro rfl
      rw [hf.unique hmade hattaches.made] at hdone
      exact hdone (List.mem_of_head? (hfill.resolve_right fun hrepair => hrepair.1))
    rw [ha.structDef?, if_neg hne]

/-- Whether a structure describes an entry does not change once it is filled. -/
theorem Change.describesStruct_eq (hs : i.Sound σ) (hf : i.Founded σ) (hc : i.Change walking σ τ)
    {id : StructId} (hfilled : Filled σ id) (d : Die) :
    i.describesStruct τ.session id d = i.describesStruct σ.session id d := by
  have hs' := hc.sound hs
  obtain ⟨x, hmade, hdone⟩ := hfilled
  obtain ⟨c, def_, -, hget, -⟩ := hf.made hmade
  have hsame := hc.structDef?_eq hs hf ⟨x, hmade, hdone⟩
  rw [hs'.describesStruct_eq (hsame.trans hget), hs.describesStruct_eq hget,
    hc.pendingOrigin?_eq hs hf hget ⟨x, hmade, hdone⟩]
  have hrecord : describesRecord τ.session.host id d = describesRecord σ.session.host id d := by
    unfold describesRecord
    rw [hs'.structDef?, hs.structDef?, hsame]
  rw [hrecord]

theorem Trace.describesStruct_eq (hs : i.Sound σ) (hf : i.Founded σ) (ht : i.Trace walking σ τ)
    {id : StructId} (hfilled : Filled σ id) (d : Die) :
    i.describesStruct τ.session id d = i.describesStruct σ.session id d := by
  suffices h : Filled τ id ∧ i.describesStruct τ.session id d = i.describesStruct σ.session id d
    from h.2
  induction ht with
  | refl => exact ⟨hfilled, rfl⟩
  | tail ht hc ih =>
    have hs' := Trace.sound hs ht
    exact ⟨hc.filled hs' ih.1,
      (hc.describesStruct_eq hs' (Trace.founded hs hf ht) ih.1 d).trans ih.2⟩

end DebugSymbols.Importer
