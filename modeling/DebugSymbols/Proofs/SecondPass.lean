import DebugSymbols.Proofs.Import.Exploration
import DebugSymbols.Proofs.Import.Visits

/-!
The second pass repairs all that can be repaired.  A structure that is pending after it lacks a
member whose type is not there; one that is not lacks none (`Kept`), whichever visit made it.
-/

namespace DebugSymbols

open Importer

namespace Importer

variable {i : Importer} {scope : Scope} {σ τ : History} {d : Die}

/-! ## Structures that were made -/

/-- The structure that was made for an entry is its type.  Unless the entry is pending, every member
is there, or its type at least. -/
def Kept (σ : History) (d : Die) (id : StructId) : Prop :=
  (d.offset, id) ∈ σ.makers ∧ ∃ o pending layout,
    σ.session.cache.type? d.offset = some (o, pending) ∧ σ.session.Record id o ∧
    d.layout = .ok layout ∧
    (pending = false → ∀ m ∈ layout, Present σ id m)

/-- Only in a repair, and if it is complete, a structure stops being pending. -/
theorem Change.completes (hs : i.Sound σ) (hc : i.Change scope σ τ) {x : UInt64} {o o' : Ordinal}
    (hold : σ.session.cache.type? x = some (o, true))
    (hnew : τ.session.cache.type? x = some (o', false)) :
    scope.repairs ∧ ∃ d, d.offset = x ∧ i.Completes σ.session d := by
  cases hc with
  | note | grow | create | attach | enter =>
    rw [hold] at hnew
    cases hnew
  | dismiss =>
    simp only [OffsetCache.type?_markUseless, hold] at hnew
    cases hnew
  | place =>
    simp only [OffsetCache.type?_markPlaced, hold] at hnew
    cases hnew
  | @leave d rest out hstack =>
    have hget := hs.uncached d.offset (by simp [hstack])
    have hne : x ≠ d.offset := by
      rintro rfl
      rw [type?_eq_none_of_get? hget] at hold
      cases hold
    simp only [type?_remember hget, hne, if_false, hold] at hnew
    cases out <;> cases hnew
  | @clear d hrepairs hclear =>
    simp only [OffsetCache.type?_clearPending] at hnew
    split at hnew
    · rename_i heq
      exact ⟨hrepairs, d, heq.symm, hclear⟩
    · rw [hold] at hnew
      cases hnew

/-- A complete structure has its members, or their types are there. -/
theorem Completes.present (hs : i.Sound σ) (hc : i.Completes σ.session d) {id : StructId}
    {o : Ordinal} (htype : σ.session.TypeAt d.offset o) (hrecord : σ.session.Record id o)
    {layout : List MemberLayout} (hlayout : d.layout = .ok layout) :
    ∀ m ∈ layout, Present σ id m := by
  obtain ⟨o', id', def_, layout', ⟨pending', htype'⟩, hget, hordinal, hlayout', hmembers⟩ :=
    hc.members
  obtain ⟨pending, htype⟩ := htype
  obtain ⟨def', hget', hordinal'⟩ := hrecord
  rw [htype] at htype'
  cases htype'
  rw [hlayout] at hlayout'
  cases hlayout'
  obtain rfl := hs.coherent.struct_eq hget hget' (hordinal.trans hordinal'.symm)
  exact fun m hm y hy => (hmembers m hm y hy).imp_right fun hnamed => ⟨def_, hget, hnamed⟩

theorem Change.kept (hs : i.Sound σ) (hc : i.Change scope σ τ) (hat : i.info.dieAt d.offset = .ok d)
    {id : StructId} (h : Kept σ d id) : Kept τ d id := by
  have he := hc.extends hs
  obtain ⟨hmade, o, pending, layout, htype, hrecord, hlayout, hpresent⟩ := h
  obtain ⟨pending', htype'⟩ := he.types ⟨pending, htype⟩
  refine ⟨hc.makers hmade, o, pending', layout, htype', hrecord.mono he, hlayout,
    fun hpending' m hm => ?_⟩
  subst hpending'
  refine Present.later ?_ he
  cases pending with
  | false => exact hpresent rfl m hm
  | true =>
    obtain ⟨-, d', hoffset, hcompletes⟩ := hc.completes hs htype htype'
    have hat' := hcompletes.at_
    rw [hoffset, hat] at hat'
    cases hat'
    exact hcompletes.present hs ⟨true, htype⟩ hrecord hlayout m hm

theorem Trace.kept (hs : i.Sound σ) (ht : i.Trace scope σ τ) (hat : i.info.dieAt d.offset = .ok d)
    {id : StructId} (h : Kept σ d id) : Kept τ d id := by
  induction ht with
  | refl => exact h
  | tail ht hc ih => exact hc.kept (Trace.sound hs ht) hat ih

/-- As long as nothing is repaired, pending structures stay pending. -/
theorem Trace.stays_pending (hs : i.Sound σ) (ht : i.Trace scope σ τ) (hscope : ¬ scope.repairs)
    {x : UInt64} {o : Ordinal} (htype : σ.session.cache.type? x = some (o, true)) :
    τ.session.cache.type? x = some (o, true) := by
  induction ht with
  | refl => exact htype
  | @tail υ φ ht hc ih =>
    have hs' := Trace.sound hs ht
    obtain ⟨pending, hnew⟩ := (hc.extends hs').types ⟨true, ih⟩
    cases pending with
    | true => exact hnew
    | false => exact absurd (hc.completes hs' ih hnew).1 hscope

/-! ## Visits that make structures -/

/-- A tracked attempt ends as its run does. -/
theorem tracks_known {α : Type} {m : Attempt α} {ok : α → History → Prop}
    {err err' : ImportError → History → Prop} (h : Attempt.Tracks i scope σ m ok err) {a : α}
    {t : Session} (hrun : m.run.run σ.session = (.ok a, t)) :
    Attempt.Tracks i scope σ m (fun b τ => (b = a ∧ τ.session = t) ∧ ok b τ) err' := by
  obtain ⟨τ, rfl, htrace, hstack, hok⟩ := tracked_run h hrun
  exact ⟨.ok a, τ, hrun, htrace, hstack, ⟨rfl, rfl⟩, hok⟩

theorem tracks_recordType_made {resolve : Resolver} (hr : i.Resolves scope resolve)
    (ht : i.Turn σ d) (hfresh : σ.Fresh d.offset) (hdef : d.DefinesRecord)
    {layout : List MemberLayout} (hlayout : d.layout = .ok layout) {id : StructId} {t : Session}
    (hrun : (i.recordFor d).run.run σ.session = (.ok (id, false), t)) :
    Attempt.Tracks i scope σ (i.recordType resolve d)
      (fun out τ => ∃ o pending, out = .type o pending ∧ i.Made τ d id o pending ∧
        (pending = false → Stocked resolve d.offset t τ id layout))
      fun _ _ => False := by
  rw [recordType_eq hdef hlayout]
  refine Attempt.tracks_bind
    (tracks_known (tracks_recordFor ht hfresh hdef ⟨layout, hlayout⟩) hrun) ?_
  rintro _ τ htrace hstack ⟨⟨rfl, rfl⟩, hmade, def_, hget, hkind⟩
  have ht' := ht.later htrace hstack
  have hfills : i.Fills scope τ d id layout :=
    Got.fills ht' hdef hlayout ⟨hmade, def_, hget, hkind⟩
  have hordinal : τ.session.structOrdinal id = .ok def_.ordinal :=
    ht'.sound.structOrdinal.mpr ⟨def_, hget, rfl⟩
  refine Attempt.tracks_ask_bind (fun o ho => ?_) fun e he => ?_
  · rw [hordinal] at ho
    cases ho
    simp only [Bool.false_eq_true, if_false]
    refine Attempt.tracks_bind (tracks_addMembers_stocked hr hfills (List.Subset.refl _)) ?_
    rintro complete υ htrace' - ⟨hsettles, hstocked⟩
    exact Attempt.tracks_pure ⟨_, _, rfl, made_of_settles hfills hdef hget hkind htrace' hsettles,
      fun hcomplete => hstocked (by simpa using hcomplete)⟩
  · rw [hordinal] at he
    cases he

theorem Made.kept {id : StructId} {o : Ordinal} {pending : Bool} (hm : i.Made σ d id o pending)
    (he : σ.session.Extends τ.session) (hmakers : σ.makers ⊆ τ.makers)
    (htype : τ.session.cache.type? d.offset = some (o, pending)) : Kept τ d id := by
  obtain ⟨layout, hlayout, hmembers⟩ := hm.members
  refine ⟨hmakers hm.maker, o, pending, layout, htype, hm.record.mono he, hlayout,
    fun hpending m hmem y hy => ?_⟩
  rcases hmembers m hmem y hy with ⟨o', htype'⟩ | ⟨hpending', -⟩
  · exact .inl ⟨o', he.types htype'⟩
  · rw [hpending] at hpending'
    cases hpending'

end Importer

variable {i : Importer} {scope : Scope} {σ τ : History}

/-- While the structure that the visit makes gets its members, one is left out, as the size of its
type is unknown. -/
def Visit.Skips (i : Importer) (v : Visit) (id : StructId) (m : MemberLayout) : Prop :=
  ∃ levels layout t, v.levels = levels + 1 ∧ v.die.layout = .ok layout ∧
    (i.recordFor v.die).run.run v.begun = (.ok (id, false), t) ∧
    LeavesOut (i.resolveWith (i.resolveDie levels)) v.die.offset id t m layout

/-- Each member that has a type is in the structure, or was skipped. -/
def Visit.Stocks (i : Importer) (v : Visit) (τ : History) (id : StructId) : Prop :=
  ∀ layout, v.die.layout = .ok layout → ∀ m ∈ layout, ∀ y, m.typeOffset = some y →
    Named τ id m.name ∨ v.Skips i id m

theorem Visit.Stocks.later {v : Visit} {id : StructId} (h : v.Stocks i σ id)
    (he : σ.session.Extends τ.session) : v.Stocks i τ id :=
  fun layout hlayout m hm y hy =>
    (h layout hlayout m hm y hy).imp_left fun hnamed => hnamed.later he

/-- The structure that a visit makes is kept.  Unless it is pending, it is stocked. -/
theorem Visit.Makes.tracks (hi : i.info.Indexed) {v : Visit} {id : StructId} (hm : v.Makes i id)
    (hσ : σ.session = v.session) (hs : i.Sound σ) (hat : i.info.dieAt v.die.offset = .ok v.die)
    (hask : i.MayAsk scope v.die.offset σ.session.resolving) :
    Step.Tracks i scope σ (i.resolveDie v.levels v.die) fun out τ =>
      i.Became τ v.die.offset out ∧ Kept τ v.die id ∧
        ∃ o pending, out = .type o pending ∧ (pending = false → v.Stocks i τ id) := by
  obtain ⟨levels, hlevels⟩ := Nat.exists_eq_succ_of_ne_zero hm.levels
  have hget : σ.session.cache.get? v.die.offset = none := hσ ▸ hm.isNew.uncached
  have hmem : v.die.offset ∉ σ.session.resolving := hσ ▸ hm.isNew.notMem
  have hturn : i.Turn (opened σ v.die.offset) v.die :=
    ⟨Trace.sound hs (trace_opened hget hmem hat hask), hat, rfl⟩
  have hfresh : (opened σ v.die.offset).Fresh v.die.offset := hs.fresh hget hmem
  have hsession : (opened σ v.die.offset).session = v.begun := by
    change entered σ.session v.die.offset = entered v.session v.die.offset
    rw [hσ]
  obtain ⟨layout, hlayout⟩ := hm.layout
  obtain ⟨t, hrun⟩ := hm.run
  have hrun' := hrun
  rw [← hsession] at hrun'
  have hresolves : i.Resolves scope (i.resolveWith (i.resolveDie levels)) :=
    resolves_resolveWith hi (visits_resolveDie hi levels)
  have hhandle : Step.Tracks i scope (opened σ v.die.offset) (i.handle (levels + 1) v.die)
      fun r τ => i.Finding τ v.die (outcomeOf r) ∧
        ∃ o pending, outcomeOf r = .type o pending ∧ i.Made τ v.die id o pending ∧
          (pending = false → v.Stocks i τ id) := by
    change Step.Tracks i scope _ (i.describe _ v.die).run _
    rw [describe_eq_recordType hm.defines]
    refine Step.Tracks.imp (tracks_recordType_made hresolves hturn hfresh hm.defines hlayout
      hrun') fun r τ _ _ hend => ?_
    cases r with
    | ok out =>
      obtain ⟨o, pending, rfl, hmade, hstocked⟩ := hend
      refine ⟨.made hmade, o, pending, rfl, hmade, fun hpending layout' hlayout' m hmem y hy => ?_⟩
      rw [hlayout] at hlayout'
      cases hlayout'
      exact (hstocked hpending m hmem y hy).imp_right fun hleft =>
        ⟨levels, layout, t, hlevels, hlayout, hrun, hleft⟩
    | error e => exact hend.elim
  rw [hlevels]
  refine (tracks_new (P := fun out τ => ∃ o pending, out = .type o pending ∧
    i.Made τ v.die id o pending ∧ (pending = false → v.Stocks i τ id)) hs hget hmem hat hask
    hhandle).imp ?_
  rintro out υ - - ⟨hbecame, τ, hsτ, htrace, o, pending, rfl, hmade, hstocks⟩
  have he := Trace.extends hsτ htrace
  exact ⟨hbecame, hmade.kept he (Trace.makers htrace) hbecame, o, pending, rfl,
    fun hpending => (hstocks hpending).later he⟩

namespace Importer

/-! ## Both passes -/

/-- The structures that walking over all types makes are kept to its end.  Those that are not
pending are stocked. -/
theorem kept_of_makes (hi : i.info.Indexed) (h : i.Idle σ) {v w : Visit} {id : StructId}
    (hv : i.Starts σ.session v) (hw : v.Includes i w) (hm : w.Makes i id) :
    ∃ τ, τ.session = i.perform σ.session .runTypes ∧ i.Trace walking σ τ ∧ i.Idle τ ∧
      i.info.dieAt w.die.offset = .ok w.die ∧ Kept τ w.die id ∧
      (τ.session.cache.isPending w.die.offset = true ∨ w.Stocks i τ id) := by
  have hroots (x : UInt64) : walking.roots x := trivial
  obtain ⟨μ, ⟨hμ, hat, hask⟩, hthrough⟩ := hv.through hi hroots h
  have hsμ := Trace.sound h.sound hthrough.before
  obtain ⟨κ, hκ, hat', hask', hthrough'⟩ := hw.through hi hμ hsμ hat hask
  have hsκ := Trace.sound hsμ hthrough'.before
  obtain ⟨out, ν, hrun, htrace, hstack, hbecame, hkept, o, pending, rfl, hstocks⟩ :=
    hm.tracks hi hκ hsκ hat' hask'
  have hsν := Trace.sound hsκ htrace
  have hall := hthrough.trans hthrough'
  obtain ⟨_, τ, hrun', htrace', hstack', -⟩ := hall.behind _ ν hrun htrace hstack hbecame
  have hbefore := (hall.before.trans htrace).trans htrace'
  refine ⟨τ, ?_, hbefore, h.later hbefore hstack', hat', Trace.kept hsν htrace' hat' hkept, ?_⟩
  · change τ.session = (i.runTypes.run σ.session).2
    rw [hrun']
  · cases pending with
    | false => exact .inr ((hstocks rfl).later (Trace.extends hsν htrace'))
    | true =>
      have htype := Trace.stays_pending hsν htrace' (fun hrepairs => hrepairs) hbecame
      exact .inl (by simp [OffsetCache.isPending, htype])

/-- What is pending after the second pass was so before, and lacks a member for good; and no
structure was made. -/
theorem pending_runSecondPass (hi : i.info.Indexed) (h : i.Idle σ)
    (hexplored : i.PendingExplored σ.session) :
    ∃ τ, τ.session = i.perform σ.session .runSecondPass ∧ i.Trace (retracing i σ.session) σ τ ∧
      i.Idle τ ∧ NoRecord σ τ ∧
      (∀ x ∈ σ.session.cache.pending, i.Surveyed (retracing i σ.session) σ τ x) ∧
      ∀ x o, τ.session.cache.type? x = some (o, true) →
        ∃ d layout, i.info.dieAt x = .ok d ∧ d.DefinesRecord ∧ d.layout = .ok layout ∧
          ∃ m ∈ layout, ∃ y, m.typeOffset = some y ∧ i.Barred τ y := by
  have hroots (x : UInt64) (hx : x ∈ σ.session.cache.pending) (d : Die) (layout : List MemberLayout)
      (hat : i.info.dieAt x = .ok d) (hlayout : d.layout = .ok layout) (m : MemberLayout)
      (hm : m ∈ layout) (y : UInt64) (hy : m.typeOffset = some y) :
      (retracing i σ.session).roots y := by
    obtain ⟨o, htype⟩ := OffsetCache.mem_pending.mp hx
    exact hexplored x o htype d layout hat hlayout m hm y hy
  have hrepairs : (retracing i σ.session).repairs := trivial
  obtain ⟨τ, htrace, hτ, hidle, hrepaired⟩ :=
    trace_of_tracks h (tracks_runSecondPass hi hrepairs h hroots)
  have hnone := Trace.noRecord h.sound h.idle .refl htrace
  refine ⟨τ, hτ, htrace, hidle, hnone, fun x hx => (hrepaired x hx).2, fun x o htype => ?_⟩
  have hold := hnone.pending htype
  rcases (hrepaired x (OffsetCache.mem_pending.mpr ⟨o, hold⟩)).1 with
    ⟨o', hdone⟩ | ⟨d, layout, hat, hlayout, hlacks⟩
  · rw [htype] at hdone
    cases hdone
  · obtain ⟨d', -, -, hat', hdef, -⟩ := h.sound.pending hold
    rw [hat] at hat'
    cases hat'
    exact ⟨d, layout, hat, hdef, hlayout, hlacks⟩

end Importer

/-- After both passes a structure that is still pending has a member whose type is not there.  A
structure that some visit made and that is not pending has all of its members, apart from those
whose type is there.  No structure is made in the second pass. -/
theorem runSecondPass_repairs {sections : Sections} {info : DebugInfo}
    (hdecode : DebugInfo.decode sections = .ok info)
    (hsize : sections.entries.size < UInt64.size) (config : Config) (pointerSize : UInt64)
    (calls : List Call) :
    let i : Importer := ⟨info, config⟩
    let start := newSession (Host.built pointerSize calls)
    let s := i.performAll [.runTypes, .runSecondPass] start
    (∀ x, s.cache.isPending x = true →
      ∃ d layout, info.dieAt x = .ok d ∧ d.DefinesRecord ∧ d.layout = .ok layout ∧
        ∃ m ∈ layout, ∃ y, m.typeOffset = some y ∧ ∀ o, ¬ s.TypeAt y o) ∧
    (∀ v w id, i.Starts start v → v.Includes i w → w.Makes i id →
      s.cache.isPending w.die.offset = false →
      ∃ def_ layout, s.host.database.structDef? id = some def_ ∧
        s.TypeAt w.die.offset def_.ordinal ∧ w.die.layout = .ok layout ∧
        ∀ m ∈ layout, ∀ y, m.typeOffset = some y →
          (∃ member ∈ def_.members, member.name = m.name) ∨ ∃ o, s.TypeAt y o) ∧
    s.host.database.structs.size =
      (i.performAll [.runTypes] start).host.database.structs.size := by
  intro i start s
  have hi : i.info.Indexed := DebugInfo.indexed_of_decode hdecode hsize
  have hstart : i.Idle ⟨start, []⟩ := idle_start pointerSize calls
  have hempty (x : UInt64) : start.cache.type? x = none := rfl
  obtain ⟨σ, htrace, hσ, hidle⟩ := trace_perform hi hstart .runTypes
  have hexplored : i.PendingExplored σ.session :=
    Trace.pendingExplored hstart.sound htrace fun x o htype => by
      rw [hempty] at htype
      cases htype
  obtain ⟨τ, hτ, htrace', -, hnone, -, hpending⟩ := pending_runSecondPass hi hidle hexplored
  have hs : s = τ.session := by
    rw [hτ, hσ]
    rfl
  have hall : i.Trace anywhere ⟨start, []⟩ τ :=
    htrace.trans (Trace.anywhere htrace')
  refine ⟨fun x hx => ?_, fun v w id hv hw hm hx => ?_, ?_⟩
  · obtain ⟨o, htype⟩ := OffsetCache.isPending_iff.mp hx
    rw [hs] at htype ⊢
    obtain ⟨d, layout, hat, hdef, hlayout, m, hmem, y, hy, hbarred⟩ := hpending x o htype
    exact ⟨d, layout, hat, hdef, hlayout, m, hmem, y, hy,
      hbarred.typeAt hstart.sound hempty hall⟩
  · obtain ⟨κ, hκ, -, hidle', hat, hkept, -⟩ := kept_of_makes hi hstart hv hw hm
    obtain ⟨υ, htrace'', hυ, -⟩ := trace_perform hi hidle' .runSecondPass
    obtain ⟨-, o, pending, layout, htype, ⟨def_, hget, rfl⟩, hlayout, hpresent⟩ :=
      Trace.kept hidle'.sound htrace'' hat hkept
    have hs' : s = υ.session := by
      rw [hυ, hκ]
      rfl
    rw [hs'] at hx ⊢
    have hcomplete : pending = false := by simpa [OffsetCache.isPending, htype] using hx
    refine ⟨def_, layout, hget, ⟨pending, htype⟩, hlayout, fun m hmem y hy => ?_⟩
    rcases hpresent hcomplete m hmem y hy with htyped | ⟨def', hget', hnamed⟩
    · exact .inr htyped
    · rw [hget] at hget'
      cases hget'
      exact .inl hnamed
  · rw [hs, hnone.steady.structs, hσ]
    rfl

/-- A structure `t` with a pointer, and a structure `s` with a member whose type is only another
name for itself. -/
def tangled : Sections := .inPlace
  ⟨#[1, 17, 1, 0, 0, 2, 19, 1, 3, 8, 0, 0, 3, 13, 0, 3, 8, 73, 19, 56, 11, 0, 0, 4, 15, 0, 0, 0,
    5, 22, 0, 3, 8, 73, 19, 0, 0, 0]⟩
  ⟨#[41, 0, 0, 0, 4, 0, 0, 0, 0, 0, 4, 1, 2, 116, 0, 3, 112, 0, 24, 0, 0, 0, 0, 0, 4, 2, 115, 0, 3,
    99, 0, 37, 0, 0, 0, 0, 0, 5, 99, 0, 37, 0, 0, 0, 0]⟩

/-- `s`, at offset 25, stays pending, and `t`, which the first visit makes, is complete. -/
theorem runSecondPass_repairs_tangled :
    ∃ info v, DebugInfo.decode tangled = .ok info ∧ tangled.entries.size < UInt64.size ∧
      let i : Importer := ⟨info, {}⟩
      let start := newSession (Host.built 4 [])
      let s := i.performAll [.runTypes, .runSecondPass] start
      s.cache.isPending 25 = true ∧
      (∃ d layout, info.dieAt 25 = .ok d ∧ d.DefinesRecord ∧ d.layout = .ok layout ∧
        ∃ m ∈ layout, ∃ y, m.typeOffset = some y ∧ ∀ o, ¬ s.TypeAt y o) ∧
      i.Starts start v ∧ v.Makes i ⟨0⟩ ∧ s.cache.isPending v.die.offset = false ∧
      ∃ def_ layout, s.host.database.structDef? ⟨0⟩ = some def_ ∧
        s.TypeAt v.die.offset def_.ordinal ∧ v.die.layout = .ok layout ∧
        ∀ m ∈ layout, ∀ y, m.typeOffset = some y →
          (∃ member ∈ def_.members, member.name = m.name) ∨ ∃ o, s.TypeAt y o := by
  have hsize : tangled.entries.size < UInt64.size := by decide
  have hrun : (DebugInfo.decode tangled).toOption.any (fun info =>
      info.units.toList.head?.any fun slot =>
      slot.content.toOption.any fun u =>
      u.dies.head?.any fun first =>
      u.dies.tail.head?.any fun d =>
        let i : Importer := ⟨info, {}⟩
        let start := newSession (Host.built 4 [])
        let s := i.performAll [.runTypes, .runSecondPass] start
        let t := ((i.walk [] [first]).run start).2
        decide (s.cache.isPending 25 = true ∧ s.cache.isPending d.offset = false ∧
          d.tag.isType = true ∧ t.cache.has d.offset = false ∧
          t.cache.get? d.offset = none ∧ d.offset ∉ t.resolving ∧ d.tag.isRecord = true ∧
          d.isDeclaration.toOption = some false ∧ d.layout.toOption.isSome ∧
          ((i.recordFor d).run.run (entered t d.offset)).1.toOption = some (⟨0⟩, false))) =
        true := by
    decide +kernel
  obtain ⟨info, hdecode, hrun⟩ := Except.of_any_toOption hrun
  simp only [Option.any_eq_true, List.head?_eq_some_iff] at hrun
  obtain ⟨slot, ⟨after, hunits⟩, hrun⟩ := hrun
  obtain ⟨u, hslot, hrun⟩ := hrun
  obtain ⟨first, ⟨later, hdies⟩, d, ⟨rest, htail⟩, hrun⟩ := hrun
  rw [hdies, List.tail_cons] at htail
  subst htail
  obtain ⟨hpending, hdone, htype, hhas, hget, hmem, hrecord, hdecl, hlayout, hmade⟩ :=
    of_decide_eq_true hrun
  obtain ⟨layout, hlayout⟩ := Option.isSome_iff_exists.mp hlayout
  let i : Importer := ⟨info, {}⟩
  let v : Visit := ⟨i.config.maxResolveDepth, d,
    ((i.walk [] [first]).run (newSession (Host.built 4 []))).2⟩
  have hstart : i.Starts (newSession (Host.built 4 [])) v :=
    .mk hunits (Except.eq_ok_of_toOption hslot) hdies htype rfl hhas
  have hmakes : v.Makes i ⟨0⟩ :=
    ⟨⟨hget, hmem⟩, by simp [v, i], ⟨hrecord, Except.eq_ok_of_toOption hdecl⟩,
      ⟨layout, Except.eq_ok_of_toOption hlayout⟩, _,
      Prod.ext (Except.eq_ok_of_toOption hmade) rfl⟩
  obtain ⟨hlacks, hkept, -⟩ := runSecondPass_repairs hdecode hsize {} 4 []
  exact ⟨info, v, hdecode, hsize, hpending, hlacks 25 hpending, hstart, hmakes, hdone,
    hkept v v ⟨0⟩ hstart (.refl v) hmakes hdone⟩

end DebugSymbols
