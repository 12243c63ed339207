import DebugSymbols.Proofs.Import.Makers
import DebugSymbols.Proofs.SecondPass

/-!
No member is lost without reason.  A member whose type is there and has a size in the end is in the
structure that was made for its entry, where the entry puts it (`member_or_skipped`).  The only
exception are members that were met before their types had sizes, in structures that were complete
at once: nobody looks at those again (`forwarded_lacks`).
-/

namespace DebugSymbols

open Importer

namespace Importer

variable {i : Importer} {scope : Scope} {σ τ : History} {d : Die} {id : StructId}

/-! ## Members that the second pass went over -/

/-- What the second pass went over without adding a member has no size, or will never be there. -/
theorem Passed.named (hs : i.Sound σ) (hidle : σ.session.resolving = [])
    {m : MemberLayout} (hp : i.Passed (retracing i σ.session) σ τ id m) {y : UInt64} {o : Ordinal}
    {n : UInt64} (hy : m.typeOffset = some y) (htype : τ.session.TypeAt y o)
    (hbarred : ¬ i.Barred τ y) (hsize : τ.session.host.typeSize? o = some n) :
    Named τ id m.name := by
  rcases hp.inspected hs hidle y hy with hnamed | ⟨o', htype', hsize'⟩ | hbarred'
  · exact hnamed
  · obtain rfl := htype.ordinal_eq htype'
    rw [hsize] at hsize'
    cases hsize'
  · exact absurd hbarred' hbarred

/-! ## Where members lie -/

/-- A member that no other shares its name with lies where the entry puts it. -/
theorem Attributed.member (ha : i.Attributed σ) (hmade : (d.offset, id) ∈ σ.makers)
    (hat : i.info.dieAt d.offset = .ok d) {before after : List MemberLayout} {m : MemberLayout}
    (hlayout : d.layout = .ok (before ++ m :: after))
    (hunique : ∀ l ∈ before ++ after, l.name ≠ m.name) {def_ : StructDef}
    (hget : σ.session.host.database.structDef? id = some def_) (hnamed : Named σ id m.name) :
    ∃ member ∈ def_.members, member.name = m.name ∧ member.offset = m.offset := by
  obtain ⟨def', hget', member, hmember, hname⟩ := hnamed
  obtain ⟨d', def'', hat', hget'', hdepicts⟩ := ha.made hmade
  rw [hat] at hat'
  cases hat'
  rw [hget] at hget' hget''
  cases hget'
  cases hget''
  obtain ⟨layout, hlayout', hmembers⟩ := hdepicts.members
  rw [hlayout] at hlayout'
  cases hlayout'
  obtain ⟨l, hl, hlname, hloffset, -⟩ := hmembers member hmember
  refine ⟨member, hmember, hname, hloffset.symm.trans (congrArg _ ?_)⟩
  rcases List.mem_append.mp hl with hl | hl
  · exact absurd (hlname.trans hname) (hunique l (List.mem_append_left _ hl))
  · rcases List.mem_cons.mp hl with heq | hl
    · exact heq
    · exact absurd (hlname.trans hname) (hunique l (List.mem_append_right _ hl))

/-- What was pending has its members after the second pass, if their types have sizes then. -/
theorem Surveyed.named (hs : i.Sound σ) (hidle : σ.session.resolving = []) (hs' : i.Sound τ)
    (hsurveyed : i.Surveyed (retracing i σ.session) σ τ d.offset)
    (hat : i.info.dieAt d.offset = .ok d) (hkept : Kept τ d id) {layout : List MemberLayout}
    (hlayout : d.layout = .ok layout) {m : MemberLayout} (hm : m ∈ layout) {y : UInt64}
    {o : Ordinal} {n : UInt64} (hy : m.typeOffset = some y) (htype : τ.session.TypeAt y o)
    (hbarred : ¬ i.Barred τ y) (hsize : τ.session.host.typeSize? o = some n) :
    Named τ id m.name := by
  obtain ⟨d', id', o', layout', hx, howned, hpassed⟩ := hsurveyed
  have hat' := howned.at_
  rw [hx, hat] at hat'
  cases hat'
  have hlayout' := howned.reads
  rw [hlayout] at hlayout'
  cases hlayout'
  obtain ⟨-, o'', pending, -, htype', ⟨def_, hget, hordinal⟩, -⟩ := hkept
  obtain ⟨def', hget', hordinal'⟩ := howned.record
  have heq := howned.type.ordinal_eq ⟨pending, htype'⟩
  obtain rfl := hs'.coherent.struct_eq hget hget' (hordinal.trans (heq.symm.trans hordinal'.symm))
  exact (hpassed m hm).named hs hidle hy htype hbarred hsize

end Importer

/-- After both passes over a new database, a structure that some visit made and that is not pending
has each member whose name no other shares and whose type is there and has a size, where the entry
puts it.  A structure that was never pending may lack members that the visit skipped. -/
theorem member_or_skipped {sections : Sections} {info : DebugInfo}
    (hdecode : DebugInfo.decode sections = .ok info)
    (hsize : sections.entries.size < UInt64.size) (config : Config) (pointerSize : UInt64) :
    let i : Importer := ⟨info, config⟩
    let start := newSession (Host.ofDatabase (.empty pointerSize))
    let walked := i.performAll [.runTypes] start
    let s := i.performAll [.runTypes, .runSecondPass] start
    ∀ v w id, i.Starts start v → v.Includes i w → w.Makes i id →
      s.cache.isPending w.die.offset = false →
      ∃ def_ layout, s.host.database.structDef? id = some def_ ∧
        s.TypeAt w.die.offset def_.ordinal ∧ w.die.layout = .ok layout ∧
        ∀ before m after, layout = before ++ m :: after →
          (∀ l ∈ before ++ after, l.name ≠ m.name) →
          ∀ y o n, m.typeOffset = some y → s.TypeAt y o → s.host.typeSize? o = some n →
            (∃ member ∈ def_.members, member.name = m.name ∧ member.offset = m.offset) ∨
              walked.cache.isPending w.die.offset = false ∧ w.Skips i id m := by
  intro i start walked s v w id hv hw hm _
  have hi : i.info.Indexed := DebugInfo.indexed_of_decode hdecode hsize
  have hstart : i.Idle ⟨start, []⟩ := idle_start pointerSize []
  have hempty (x : UInt64) : start.cache.type? x = none := rfl
  obtain ⟨σ, hσ, htrace, hidle, hat, hkept, hstocks⟩ := kept_of_makes hi hstart hv hw hm
  have hexplored : i.PendingExplored σ.session :=
    Trace.pendingExplored hstart.sound htrace fun x o htype => by
      rw [hempty] at htype
      cases htype
  obtain ⟨τ, hτ, htrace', -, -, hsurveyed, -⟩ := pending_runSecondPass hi hidle hexplored
  have hwalked : walked = σ.session := hσ.symm
  have hs : s = τ.session := by
    rw [hτ, hσ]
    rfl
  have hsτ := Trace.sound hidle.sound htrace'
  have hattributed : i.Attributed τ :=
    Trace.attributed hidle.sound (Trace.attributed hstart.sound (attributed_start start) htrace)
      htrace'
  have hkept' := Trace.kept hidle.sound htrace' hat hkept
  obtain ⟨hmade, o', pending, layout, htype', ⟨def_, hget, rfl⟩, hlayout, -⟩ := hkept'
  rw [hs, hwalked]
  refine ⟨def_, layout, hget, ⟨pending, htype'⟩, hlayout, ?_⟩
  rintro before m after rfl hunique y o n hy htype hn
  have hmem : m ∈ before ++ m :: after := by simp
  have hbarred : ¬ i.Barred τ y := fun hbarred =>
    hbarred.typeAt hstart.sound hempty ((Trace.anywhere htrace).trans (Trace.anywhere htrace')) o
      htype
  have member (hnamed : Named τ id m.name) :=
    hattributed.member hmade hat hlayout hunique hget hnamed
  cases hpending : σ.session.cache.isPending w.die.offset with
  | true =>
    have hin := OffsetCache.mem_pending.mpr (OffsetCache.isPending_iff.mp hpending)
    exact .inl (member ((hsurveyed _ hin).named hidle.sound hidle.idle hsτ hat
      (Trace.kept hidle.sound htrace' hat hkept) hlayout hmem hy htype hbarred hn))
  | false =>
    rw [hpending] at hstocks
    rcases hstocks.resolve_left Bool.false_ne_true _ hlayout m hmem y hy with hnamed | hskips
    · exact .inl (member (hnamed.later (Trace.extends hidle.sound htrace')))
    · exact .inr ⟨rfl, hskips⟩

/-! ## A type that is declared before it is defined -/

/-- The first unit has, in the given place, an entry at that offset with that layout, and a walk
that comes to it makes it a structure with the handle. -/
def Importer.makesAt (i : Importer) (s : Session) (place : Nat) (x : UInt64)
    (layout : List MemberLayout) (id : StructId) : Bool :=
  i.info.units.toList.head?.any fun slot => slot.content.toOption.any fun u =>
    u.dies[place]?.any fun d =>
      let t := ((i.walk [] (u.dies.take place)).run s).2
      decide (d.offset = x ∧ d.layout = .ok layout ∧ d.tag.isType = true ∧ d.DefinesRecord ∧
        t.cache.get? d.offset = none ∧ d.offset ∉ t.resolving ∧
        ((i.recordFor d).run.run (entered t d.offset)).1.toOption = some (id, false))

theorem Importer.of_makesAt {i : Importer} {s : Session} {place : Nat} {x : UInt64}
    {layout : List MemberLayout} {id : StructId} (h : i.makesAt s place x layout id = true)
    (hlevels : i.config.maxResolveDepth ≠ 0) :
    ∃ v, i.Starts s v ∧ v.Makes i id ∧ v.die.offset = x ∧ v.die.layout = .ok layout := by
  simp only [makesAt, Option.any_eq_true, List.head?_eq_some_iff] at h
  obtain ⟨slot, ⟨after, hunits⟩, u, hslot, d, hd, h⟩ := h
  obtain ⟨hx, hlayout, htype, hdef, hget, hmem, hmade⟩ := of_decide_eq_true h
  obtain ⟨hlt, rfl⟩ := List.getElem?_eq_some_iff.mp hd
  have hdies : u.dies = u.dies.take place ++ u.dies[place] :: u.dies.drop (place + 1) := by
    rw [List.getElem_cons_drop, List.take_append_drop]
  refine ⟨⟨i.config.maxResolveDepth, u.dies[place], _⟩,
    .mk hunits (Except.eq_ok_of_toOption hslot) hdies htype rfl ?_,
    ⟨⟨hget, hmem⟩, hlevels, hdef, ⟨layout, hlayout⟩, _,
      Prod.ext (Except.eq_ok_of_toOption hmade) rfl⟩, hx, hlayout⟩
  simp [OffsetCache.has, hget]

/-- A structure `a` with a member `f` of type `b`, which is declared at offset 24 and defined at
offset 27, with a pointer `p`. -/
def forwarded : Sections := .inPlace
  ⟨#[1, 17, 1, 0, 0, 2, 19, 1, 3, 8, 0, 0, 3, 13, 0, 3, 8, 73, 19, 56, 11, 0, 0, 4, 19, 0, 3, 8, 60,
    25, 0, 0, 5, 15, 0, 0, 0, 0]⟩
  ⟨#[37, 0, 0, 0, 4, 0, 0, 0, 0, 0, 4, 1, 2, 97, 0, 3, 102, 0, 24, 0, 0, 0, 0, 0, 4, 98, 0, 2, 98,
    0, 3, 112, 0, 39, 0, 0, 0, 0, 0, 5, 0]⟩

/-- `a` is complete, but lacks `f`, although `f` has a type, of four bytes, in the end: when `f` was
looked at, `b` was only declared. -/
theorem forwarded_lacks :
    ∃ info v m, DebugInfo.decode forwarded = .ok info ∧ forwarded.entries.size < UInt64.size ∧
      let i : Importer := ⟨info, {}⟩
      let start := newSession (Host.ofDatabase (.empty 4))
      let s := i.performAll [.runTypes, .runSecondPass] start
      i.Starts start v ∧ v.Makes i ⟨0⟩ ∧ s.cache.isPending v.die.offset = false ∧
      v.die.layout = .ok [m] ∧ m.typeOffset = some 24 ∧ s.TypeAt 24 ⟨2⟩ ∧
      s.host.typeSize? ⟨2⟩ = some 4 ∧
      ¬ ∃ def_, s.host.database.structDef? ⟨0⟩ = some def_ ∧
        ∃ member ∈ def_.members, member.name = m.name ∧ member.offset = m.offset := by
  have hsize : forwarded.entries.size < UInt64.size := by decide
  have hrun : (DebugInfo.decode forwarded).toOption.any (fun info =>
      let i : Importer := ⟨info, {}⟩
      let start := newSession (Host.ofDatabase (.empty 4))
      let s := i.performAll [.runTypes, .runSecondPass] start
      i.makesAt start 1 12 [⟨"f", 0, some 24⟩] ⟨0⟩ &&
        decide (s.cache.isPending 12 = false ∧ s.cache.type? 24 = some (⟨2⟩, false) ∧
          s.host.typeSize? ⟨2⟩ = some 4 ∧
          s.host.database.structDef? ⟨0⟩ = some ⟨"a", false, ⟨1⟩, []⟩)) = true := by
    decide +kernel
  obtain ⟨info, hdecode, hrun⟩ := Except.of_any_toOption hrun
  simp only [Bool.and_eq_true, decide_eq_true_eq] at hrun
  obtain ⟨hmakes, hdone, htype, hknown, hget⟩ := hrun
  obtain ⟨v, hv, hm, hx, hlayout⟩ := of_makesAt hmakes (by simp)
  refine ⟨info, v, _, hdecode, hsize, hv, hm, hx ▸ hdone, hlayout, rfl, ⟨false, htype⟩, hknown, ?_⟩
  rintro ⟨def_, hget', member, hmember, -⟩
  rw [hget] at hget'
  cases hget'
  cases hmember

/-- `p`, the member of `b`, is there. -/
theorem member_or_skipped_forwarded :
    ∃ info v m, DebugInfo.decode forwarded = .ok info ∧ forwarded.entries.size < UInt64.size ∧
      let i : Importer := ⟨info, {}⟩
      let start := newSession (Host.ofDatabase (.empty 4))
      let walked := i.performAll [.runTypes] start
      let s := i.performAll [.runTypes, .runSecondPass] start
      i.Starts start v ∧ v.Makes i ⟨1⟩ ∧ s.cache.isPending v.die.offset = false ∧
      v.die.layout = .ok [m] ∧ m.typeOffset = some 39 ∧ s.TypeAt 39 ⟨4⟩ ∧
      s.host.typeSize? ⟨4⟩ = some 4 ∧
      ∃ def_, s.host.database.structDef? ⟨1⟩ = some def_ ∧ s.TypeAt v.die.offset def_.ordinal ∧
        ((∃ member ∈ def_.members, member.name = m.name ∧ member.offset = m.offset) ∨
          walked.cache.isPending v.die.offset = false ∧ v.Skips i ⟨1⟩ m) := by
  have hsize : forwarded.entries.size < UInt64.size := by decide
  have hrun : (DebugInfo.decode forwarded).toOption.any (fun info =>
      let i : Importer := ⟨info, {}⟩
      let start := newSession (Host.ofDatabase (.empty 4))
      let s := i.performAll [.runTypes, .runSecondPass] start
      i.makesAt start 4 27 [⟨"p", 0, some 39⟩] ⟨1⟩ &&
        decide (s.cache.isPending 27 = false ∧ s.cache.type? 39 = some (⟨4⟩, false) ∧
          s.host.typeSize? ⟨4⟩ = some 4)) = true := by
    decide +kernel
  obtain ⟨info, hdecode, hrun⟩ := Except.of_any_toOption hrun
  simp only [Bool.and_eq_true, decide_eq_true_eq] at hrun
  obtain ⟨hmakes, hdone, htype, hknown⟩ := hrun
  obtain ⟨v, hv, hm, hx, hlayout⟩ := of_makesAt hmakes (by simp)
  rw [← hx] at hdone
  obtain ⟨def_, layout, hget, hrecord, hlayout', hmembers⟩ :=
    member_or_skipped hdecode hsize {} 4 v v ⟨1⟩ hv (.refl v) hm hdone
  rw [hlayout] at hlayout'
  cases hlayout'
  exact ⟨info, v, _, hdecode, hsize, hv, hm, hdone, hlayout, rfl, ⟨false, htype⟩, hknown, def_,
    hget, hrecord, hmembers [] _ [] rfl nofun 39 ⟨4⟩ 4 rfl ⟨false, htype⟩ hknown⟩

end DebugSymbols
