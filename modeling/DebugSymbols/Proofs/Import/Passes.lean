import DebugSymbols.Proofs.Import.Placing
import DebugSymbols.Proofs.Import.Resolving

/-!
The passes of an import as traces.  `tracks_visitUnits` is about the walks over all entries,
`tracks_runSecondPass` about the repair of pending structures: each of them ends complete, or
lacks a member whose type has nothing behind it for good.
-/

namespace DebugSymbols.Importer

variable {i : Importer} {scope : Scope} {σ : History} {d : Die}

/-- Nothing is being resolved, and what the cache says is so. -/
structure Idle (i : Importer) (σ : History) : Prop where
  sound : i.Sound σ
  idle : σ.session.resolving = []

theorem Idle.later {τ : History} (h : i.Idle σ) (ht : i.Trace scope σ τ)
    (hstack : τ.session.resolving = σ.session.resolving) : i.Idle τ :=
  ⟨Trace.sound h.sound ht, hstack.trans h.idle⟩

theorem Idle.mayAsk (h : i.Idle σ) {x : UInt64} (hx : scope.roots x) :
    i.MayAsk scope x σ.session.resolving := by
  rw [h.idle]
  exact hx

/-- Every type may be asked for, and structures may be repaired. -/
def anywhere : Scope := ⟨fun _ => True, True⟩

theorem Trace.anywhere {τ : History} (ht : i.Trace scope σ τ) : i.Trace anywhere σ τ :=
  ht.lift id fun _ _ hc => hc.weaken (fun _ _ => trivial) fun _ => trivial

/-- Every type may be asked for, but nothing is repaired. -/
def walking : Scope := ⟨fun _ => True, False⟩

/-! ## Walking over all entries -/

/-- What the visit of an entry leaves behind.  In the last phase the entry is done with; in the
first one a type may also lead back to what it is made from. -/
def Visited (i : Importer) (d : Die) (τ : History) : Phase → Prop
  | .types => d.tag.isType = true → τ.session.cache.has d.offset = true ∨ i.Awaits [] d.offset
  | .frames => τ.session.cache.has d.offset = true

theorem visited_of_has {τ : History} (phase : Phase) (h : τ.session.cache.has d.offset = true) :
    i.Visited d τ phase := by
  cases phase with
  | types => exact fun _ => .inl h
  | frames => exact h

theorem Visited.later {τ υ : History} {phase : Phase} (h : i.Visited d τ phase)
    (ht : i.Trace scope τ υ) : i.Visited d υ phase := by
  cases phase with
  | types => exact fun htag => (h htag).imp_left (Trace.has ht)
  | frames => exact Trace.has ht h

theorem Became.visited {τ : History} {out : Outcome} (h : i.Became τ d.offset out)
    (hidle : τ.session.resolving = []) :
    τ.session.cache.has d.offset = true ∨ i.Awaits [] d.offset := by
  cases out with
  | type o pending =>
    have hget := OffsetCache.type?_eq_some.mp (show _ = some (o, pending) from h)
    exact .inl (by simp [OffsetCache.has, hget])
  | useless => exact .inl h.1
  | deferred =>
    rw [← hidle]
    exact .inr h

theorem tracks_visit (hi : i.info.Indexed) (phase : Phase)
    (hroots : phase = .types → ∀ x, scope.roots x) (h : i.Idle σ)
    (hat : i.info.dieAt d.offset = .ok d) :
    Step.Tracks i scope σ (i.visit phase d) fun _ τ => i.Visited d τ phase := by
  cases phase with
  | types =>
    unfold visit
    dsimp only
    split
    · have hask := h.mayAsk (hroots rfl d.offset)
      refine Step.tracks_bind (visits_resolveDie hi _ σ d h.sound hat hask) ?_
      intro out τ _ hstack hbecame
      exact Step.tracks_pure fun _ => hbecame.visited (hstack.trans h.idle)
    · rename_i htag
      exact Step.tracks_pure fun htag' => absurd htag' htag
  | frames => exact tracks_visitPlaced d h.idle

theorem tracks_visitOnce (hi : i.info.Indexed) (phase : Phase)
    (hroots : phase = .types → ∀ x, scope.roots x) (h : i.Idle σ)
    (hat : i.info.dieAt d.offset = .ok d) :
    Step.Tracks i scope σ (i.visitOnce phase d) fun _ τ => i.Visited d τ phase := by
  refine Step.tracks_get_bind ?_
  split
  · exact Step.tracks_bind (tracks_visit hi phase hroots h hat)
      fun _ _ _ _ hvisited => Step.tracks_pure hvisited
  · rename_i hcached
    exact Step.tracks_pure (visited_of_has phase (by simpa using hcached))

theorem tracks_countUnit (phase : Phase) (f : Stats → Stats) :
    Step.Tracks i scope σ (countUnit phase f) fun _ _ => True := by
  unfold countUnit
  split
  · exact (Step.tracks_count f).imp fun _ _ _ _ _ => trivial
  · exact Step.tracks_pure trivial

theorem tracks_visitUnit (hi : i.info.Indexed) (phase : Phase)
    (hroots : phase = .types → ∀ x, scope.roots x) (h : i.Idle σ) {slot : DebugInfo.Slot}
    (hslot : slot ∈ i.info.units) :
    Step.Tracks i scope σ (i.visitUnit phase slot) fun _ τ =>
      ∀ u, slot.content = .ok u → ∀ d ∈ u.dies, i.Visited d τ phase := by
  unfold visitUnit
  split
  · rename_i e he
    refine Step.tracks_bind (Step.tracks_warn _) fun _ _ _ _ _ => ?_
    exact (tracks_countUnit phase _).imp fun _ _ _ _ _ u hu => by cases he.symm.trans hu
  · rename_i u hu
    refine Step.tracks_bind (tracks_countUnit phase _) fun _ τ htrace hstack _ => ?_
    have hall : Step.Tracks i scope τ (u.dies.forM (i.visitOnce phase)) fun _ υ =>
        ∀ d ∈ u.dies, i.Visited d υ phase := by
      refine Step.tracks_forM_all (fun d hd υ htrace' hstack' => ?_)
        fun _ _ _ _ ht hvisited => hvisited.later ht
      exact tracks_visitOnce hi phase hroots ((h.later htrace hstack).later htrace' hstack')
        (hi.dieAt_of_holds (DebugInfo.holds_of_mem_dies hslot hu hd))
    refine hall.imp fun _ υ _ _ hvisited u' hu' d hd => ?_
    cases hu.symm.trans hu'
    exact hvisited d hd

/-- Every entry that is walked over is visited. -/
theorem tracks_visitUnits (hi : i.info.Indexed) (phase : Phase)
    (hroots : phase = .types → ∀ x, scope.roots x) (h : i.Idle σ) :
    Step.Tracks i scope σ (i.visitUnits phase) fun _ τ =>
      ∀ d, i.info.Walks d → i.Visited d τ phase := by
  have hall : Step.Tracks i scope σ (i.visitUnits phase) fun _ τ =>
      ∀ slot ∈ i.info.units.toList, ∀ u, slot.content = .ok u → ∀ d ∈ u.dies,
        i.Visited d τ phase :=
    Step.tracks_forM_all
      (fun slot hslot τ htrace hstack =>
        tracks_visitUnit hi phase hroots (h.later htrace hstack) (by simpa using hslot))
      fun _ _ _ _ ht hvisited u hu d hd => (hvisited u hu d hd).later ht
  exact hall.imp fun _ _ _ _ hall d ⟨slot, hslot, u, hu, hd⟩ =>
    hall slot (by simpa using hslot) u hu d hd

theorem tracks_process (hi : i.info.Indexed) (hroots : ∀ x, scope.roots x) (h : i.Idle σ)
    (x : UInt64) (phase : Phase) :
    Attempt.Harmless i scope σ (i.process x phase) := by
  refine Attempt.tracks_get_bind ?_
  split
  · exact Attempt.tracks_pure trivial
  · refine Attempt.tracks_read_bind (fun d hd => ?_) fun _ _ => trivial
    have hoffset := hi.offset_of_dieAt hd
    subst hoffset
    exact Attempt.tracks_lift ((tracks_visit hi phase (fun _ => hroots) h hd).imp
      fun _ _ _ _ _ => trivial)

/-! ## Repairs -/

/-- There will never be a type at the offset. -/
def Barred (i : Importer) (τ : History) (y : UInt64) : Prop :=
  τ.session.cache.has y = true ∧ τ.session.cache.type? y = none ∨ i.Awaits [] y

/-- What the repair of a structure needs to know. -/
structure Owned (i : Importer) (σ : History) (d : Die) (id : StructId) (o : Ordinal)
    (layout : List MemberLayout) : Prop where
  at_ : i.info.dieAt d.offset = .ok d
  defines : d.DefinesRecord
  made : (d.offset, id) ∈ σ.makers
  type : σ.session.TypeAt d.offset o
  record : σ.session.Record id o
  reads : d.layout = .ok layout

theorem Owned.later {τ : History} {id : StructId} {o : Ordinal} {layout : List MemberLayout}
    (h : i.Owned σ d id o layout) (hs : i.Sound σ) (ht : i.Trace scope σ τ) :
    i.Owned τ d id o layout :=
  ⟨h.at_, h.defines, Trace.makers ht h.made, (Trace.extends hs ht).types h.type,
    h.record.mono (Trace.extends hs ht), h.reads⟩

/-- The structure has a member of that name, or its type is there. -/
def Present (τ : History) (id : StructId) (m : MemberLayout) : Prop :=
  ∀ y, m.typeOffset = some y → (∃ o, τ.session.TypeAt y o) ∨ Named τ id m.name

theorem Present.later {τ : History} {id : StructId} {m : MemberLayout} (h : Present σ id m)
    (he : σ.session.Extends τ.session) : Present τ id m := by
  intro y hy
  rcases h y hy with ⟨o, htype⟩ | hnamed
  · exact .inl ⟨o, he.types htype⟩
  · exact .inr (hnamed.later he)

theorem Barred.later {τ : History} {y : UInt64} (h : i.Barred σ y) (hs : i.Sound σ)
    (ht : i.Trace scope σ τ) : i.Barred τ y := by
  rcases h with ⟨hhas, hnone⟩ | hawaits
  · refine .inl ⟨Trace.has ht hhas, ?_⟩
    induction ht with
    | refl => exact hnone
    | @tail υ φ ht hc ih =>
      cases hget : φ.session.cache.type? y with
      | none => rfl
      | some p =>
        have hs' := Trace.sound hs ht
        rcases hc.typeAt_cases hs' hget with ⟨pending, hold, -⟩ | ⟨d, -, hhead, -⟩
        · rw [ih] at hold
          cases hold
        · have hnew := hs'.uncached y (List.mem_of_head? hhead)
          have hold := Trace.has ht hhas
          simp [OffsetCache.has, hnew] at hold
  · exact .inr hawaits

/-- What was found when the structure was gone over: the member is there, or the size of its type is
unknown, or it will never have a type. -/
def Inspected (i : Importer) (τ : History) (id : StructId) (m : MemberLayout) : Prop :=
  ∀ y, m.typeOffset = some y → Named τ id m.name ∨
    (∃ o, τ.session.TypeAt y o ∧ τ.session.host.typeSize? o = none) ∨ i.Barred τ y

/-- In between, the structure was gone over. -/
def Passed (i : Importer) (scope : Scope) (σ τ : History) (id : StructId) (m : MemberLayout) :
    Prop :=
  ∃ μ, i.Trace scope σ μ ∧ i.Trace scope μ τ ∧ i.Inspected μ id m

theorem Passed.extend {κ τ υ : History} {id : StructId} {m : MemberLayout}
    (h : i.Passed scope σ τ id m) (ht : i.Trace scope κ σ) (ht' : i.Trace scope τ υ) :
    i.Passed scope κ υ id m := by
  obtain ⟨μ, hbefore, hafter, hinspected⟩ := h
  exact ⟨μ, ht.trans hbefore, hafter.trans ht', hinspected⟩

/-- Whether there is a member of that name is looked up before one is added. -/
theorem Sound.any_iff (hs : i.Sound σ) {id : StructId} {name : String} :
    ((σ.session.host.structDef? id).elim [] (·.members)).any (·.name = name) = true ↔
      Named σ id name := by
  unfold Named
  rw [hs.structDef?]
  cases σ.session.host.database.structDef? id with
  | none => simp
  | some def_ => simp

/-- A member that is not there gets into the structure, or will never have a type. -/
theorem tracks_addMissing (hi : i.info.Indexed) (hrepairs : scope.repairs) (h : i.Idle σ)
    {id : StructId} {o : Ordinal} {layout : List MemberLayout} (ho : i.Owned σ d id o layout)
    (hroots : ∀ m ∈ layout, ∀ y, m.typeOffset = some y → scope.roots y) {m : MemberLayout}
    (hm : m ∈ layout) :
    Attempt.Tracks i scope σ (addMember i.resolve d.offset id m)
      (fun done τ =>
        (if done then Present τ id m else ∃ y, m.typeOffset = some y ∧ i.Barred τ y) ∧
          i.Inspected τ id m)
      fun _ _ => False := by
  have hfills : i.Fills scope σ d id layout :=
    ⟨h.sound, ho.at_, ho.made, ⟨o, ho.record⟩, .inr ⟨hrepairs, h.idle⟩, ho.reads,
      fun m' hm' y hy => h.mayAsk (hroots m' hm' y hy)⟩
  refine (tracks_addMember (resolves_resolve hi) hfills hm).imp ?_ fun _ _ h => h
  intro done τ _ hstack hattempted
  have htried {y : UInt64} (hy : m.typeOffset = some y) :=
    (hattempted.2 y hy).imp fun _ h => h.imp fun _ h => h.2
  cases done with
  | true =>
    refine ⟨fun y hy => .inl ?_, fun y hy => ?_⟩
    · obtain ⟨μ, r, o', -, htype, -⟩ := htried hy
      exact ⟨o', htype⟩
    · obtain ⟨μ, r, o', -, htype, hnamed | ⟨hsize, hsame⟩⟩ := htried hy
      · exact .inl hnamed
      · exact .inr (.inl ⟨o', htype, by rw [hsame, hsize]⟩)
  | false =>
    cases hy : m.typeOffset with
    | none => exact absurd (hattempted.1 hy) (by simp)
    | some y =>
      obtain ⟨μ, r, hbarred⟩ := htried hy
      replace hbarred : i.Barred τ y := by
        unfold Tried at hbarred
        rw [hstack, h.idle] at hbarred
        exact hbarred
      refine ⟨⟨y, rfl, hbarred⟩, fun y' hy' => ?_⟩
      rw [hy] at hy'
      cases hy'
      exact .inr (.inr hbarred)

/-- What one member comes to, and then the others, is what all of them come to. -/
theorem completed_cons {τ : History} (hs : i.Sound σ) (ht : i.Trace scope σ τ) {id : StructId}
    {m : MemberLayout} {rest : List MemberLayout} {done complete : Bool}
    (hdone : if done then Present σ id m else ∃ y, m.typeOffset = some y ∧ i.Barred σ y)
    (hothers : if complete then ∀ m' ∈ rest, Present τ id m'
      else ∃ m' ∈ rest, ∃ y, m'.typeOffset = some y ∧ i.Barred τ y) :
    if done && complete then ∀ m' ∈ m :: rest, Present τ id m'
    else ∃ m' ∈ m :: rest, ∃ y, m'.typeOffset = some y ∧ i.Barred τ y := by
  cases done with
  | false =>
    obtain ⟨y, hy, hbarred⟩ := hdone
    exact ⟨m, by simp, y, hy, hbarred.later hs ht⟩
  | true =>
    cases complete with
    | false =>
      obtain ⟨m', hm', hbarred⟩ := hothers
      exact ⟨m', by simp [hm'], hbarred⟩
    | true =>
      intro m' hm'
      rcases List.mem_cons.mp hm' with rfl | hm'
      · exact Present.later hdone (Trace.extends hs ht)
      · exact hothers m' hm'

theorem tracks_completeStruct (hi : i.info.Indexed) (hrepairs : scope.repairs)
    (h : i.Idle σ) {id : StructId} {o : Ordinal} {layout : List MemberLayout}
    (ho : i.Owned σ d id o layout)
    (hroots : ∀ m ∈ layout, ∀ y, m.typeOffset = some y → scope.roots y)
    {members : List MemberLayout} (hm : members ⊆ layout) :
    Attempt.Tracks i scope σ (i.completeStruct d.offset id members)
      (fun complete τ =>
        (if complete then ∀ m ∈ members, Present τ id m
        else ∃ m ∈ members, ∃ y, m.typeOffset = some y ∧ i.Barred τ y) ∧
          ∀ m ∈ members, i.Passed scope σ τ id m)
      fun _ _ => False := by
  induction members generalizing σ with
  | nil => exact Attempt.tracks_pure (by simp)
  | cons m rest ih =>
    obtain ⟨hmem, hrest⟩ := List.cons_subset.mp hm
    refine Attempt.tracks_get_bind ?_
    dsimp only
    have others (done : Bool) (τ : History) (htrace : i.Trace scope σ τ)
        (hstack : τ.session.resolving = σ.session.resolving)
        (hdone : (if done then Present τ id m else ∃ y, m.typeOffset = some y ∧ i.Barred τ y) ∧
          i.Inspected τ id m) :
        Attempt.Tracks i scope τ
          (do
            let others ← i.completeStruct d.offset id rest
            return done && others)
          (fun complete τ =>
            (if complete then ∀ m' ∈ m :: rest, Present τ id m'
            else ∃ m' ∈ m :: rest, ∃ y, m'.typeOffset = some y ∧ i.Barred τ y) ∧
              ∀ m' ∈ m :: rest, i.Passed scope σ τ id m')
          fun _ _ => False := by
      have h' := h.later htrace hstack
      refine Attempt.tracks_bind (ih h' (ho.later h.sound htrace) hrest) ?_
      rintro complete υ htrace' - ⟨hothers, hpassed⟩
      refine Attempt.tracks_pure ⟨completed_cons h'.sound htrace' hdone.1 hothers, ?_⟩
      intro m' hm'
      rcases List.mem_cons.mp hm' with rfl | hm'
      · exact ⟨τ, htrace, htrace', hdone.2⟩
      · exact (hpassed m' hm').extend htrace .refl
    split
    · rename_i hany
      have hnamed := h.sound.any_iff.mp hany
      exact Attempt.tracks_bind
        (Attempt.tracks_pure ⟨fun y _ => .inr hnamed, fun y _ => .inl hnamed⟩) others
    · exact Attempt.tracks_bind (tracks_addMissing hi hrepairs h ho hroots hmem) others

/-- What the repair of a structure comes to: it is complete, or lacks a member for good. -/
def Repaired (i : Importer) (τ : History) (x : UInt64) : Prop :=
  (∃ o, τ.session.cache.type? x = some (o, false)) ∨
    ∃ d layout, i.info.dieAt x = .ok d ∧ d.layout = .ok layout ∧
      ∃ m ∈ layout, ∃ y, m.typeOffset = some y ∧ i.Barred τ y

theorem Repaired.later {τ : History} {x : UInt64} (h : i.Repaired σ x) (hs : i.Sound σ)
    (ht : i.Trace scope σ τ) : i.Repaired τ x := by
  rcases h with ⟨o, htype⟩ | ⟨d, layout, hat, hlayout, m, hm, y, hy, hbarred⟩
  · refine .inl ⟨o, ?_⟩
    induction ht with
    | refl => exact htype
    | @tail υ φ ht hc ih =>
      obtain ⟨pending, hnew⟩ := (hc.extends (Trace.sound hs ht)).types ⟨false, ih⟩
      rcases hc.typeAt_cases (Trace.sound hs ht) hnew with ⟨pending', hold, hp⟩ | ⟨_, _, hhead, _⟩
      · rw [ih] at hold
        cases hold
        cases pending
        · exact hnew
        · exact absurd (hp rfl) (by simp)
      · rw [type?_eq_none_of_get? ((Trace.sound hs ht).uncached x (List.mem_of_head? hhead))] at ih
        cases ih
  · exact .inr ⟨d, layout, hat, hlayout, m, hm, y, hy, hbarred.later hs ht⟩

/-- The structure is found as long as the host is the same, and the entry has its type. -/
theorem Owned.structOf {id : StructId} {o : Ordinal} {layout : List MemberLayout}
    (ho : i.Owned σ d id o layout) (hs : i.Sound σ) {t : Session} (hhost : t.host = σ.session.host)
    (htype : t.TypeAt d.offset o) : Importer.structOf d.offset t = .ok id := by
  obtain ⟨pending, htype⟩ := htype
  obtain ⟨def_, hget, rfl⟩ := ho.record
  unfold Importer.structOf
  rw [htype, hhost]
  simp only [Option.bind_some]
  rw [hs.numberedType?, hs.coherent.structs hget]
  unfold StructDef.shape
  cases def_.isUnion <;> rfl

theorem tracks_completeAt (hi : i.info.Indexed) (hrepairs : scope.repairs)
    (h : i.Idle σ) {id : StructId} {o : Ordinal} {layout : List MemberLayout}
    (ho : i.Owned σ d id o layout)
    (hroots : ∀ m ∈ layout, ∀ y, m.typeOffset = some y → scope.roots y) :
    Attempt.Tracks i scope σ (i.completeAt d.offset)
      (fun complete τ =>
        (if complete then ∀ m ∈ layout, Present τ id m
        else ∃ m ∈ layout, ∃ y, m.typeOffset = some y ∧ i.Barred τ y) ∧
          ∀ m ∈ layout, i.Passed scope σ τ id m)
      fun _ _ => False := by
  refine Attempt.tracks_read_bind (fun d' hd' => ?_) fun e he => ?_
  · rw [ho.at_] at hd'
    cases hd'
    refine Attempt.tracks_ask_bind (fun id' hid' => ?_) fun e he => ?_
    · rw [ho.structOf h.sound rfl ho.type] at hid'
      cases hid'
      refine Attempt.tracks_read_bind (fun layout' hlayout' => ?_) fun e he => ?_
      · rw [ho.reads] at hlayout'
        cases hlayout'
        exact tracks_completeStruct hi hrepairs h ho hroots (List.Subset.refl _)
      · rw [ho.reads] at he
        cases he
    · rw [ho.structOf h.sound rfl ho.type] at he
      cases he
  · rw [ho.at_] at he
    cases he

/-- The members of the structure that was made for an entry were gone over. -/
def Surveyed (i : Importer) (scope : Scope) (σ τ : History) (x : UInt64) : Prop :=
  ∃ d id o layout, d.offset = x ∧ i.Owned τ d id o layout ∧ ∀ m ∈ layout, i.Passed scope σ τ id m

theorem Surveyed.extend {κ τ υ : History} {x : UInt64} (h : i.Surveyed scope σ τ x)
    (hs : i.Sound τ) (ht : i.Trace scope κ σ) (ht' : i.Trace scope τ υ) :
    i.Surveyed scope κ υ x := by
  obtain ⟨d, id, o, layout, hx, howned, hpassed⟩ := h
  exact ⟨d, id, o, layout, hx, howned.later hs ht', fun m hm => (hpassed m hm).extend ht ht'⟩

theorem tracks_repair (hi : i.info.Indexed) (hrepairs : scope.repairs)
    (h : i.Idle σ) {id : StructId} {o : Ordinal} {layout : List MemberLayout}
    (ho : i.Owned σ d id o layout)
    (hroots : ∀ m ∈ layout, ∀ y, m.typeOffset = some y → scope.roots y) :
    Step.Tracks i scope σ (i.repair d.offset) fun _ τ =>
      i.Repaired τ d.offset ∧ i.Surveyed scope σ τ d.offset := by
  refine Step.tracks_bind (tracks_completeAt hi hrepairs h ho hroots) ?_
  intro result τ htrace hstack hresult
  have h' := h.later htrace hstack
  have ho' := ho.later h.sound htrace
  split
  · obtain ⟨hpresent, hpassed⟩ := hresult
    replace hpresent : ∀ m ∈ layout, Present τ id m := hpresent
    have hsurveyed : i.Surveyed scope σ τ d.offset := ⟨d, id, o, layout, rfl, ho', hpassed⟩
    obtain ⟨def_, hget, hordinal⟩ := ho'.record
    have hcompletes : i.Completes τ.session d := by
      refine ⟨ho'.at_, h'.idle, o, id, def_, layout, ho'.type, hget, hordinal, ho'.reads, ?_⟩
      intro m hm y hy
      refine (hpresent m hm y hy).imp_right fun ⟨def', hget', hnamed⟩ => ?_
      rw [hget] at hget'
      cases hget'
      exact hnamed
    obtain ⟨pending, htype⟩ := ho'.type
    have hcleared : Step.Tracks i scope τ (Step.updateCache (·.clearPending d.offset))
        fun _ υ => υ.session.cache.type? d.offset = some (o, false) := by
      refine Step.tracks_modify (.clear τ hrepairs hcompletes) rfl rfl ?_
      simp [OffsetCache.type?_clearPending, htype]
    refine Step.tracks_bind hcleared fun _ υ htrace' _ hcleared' => ?_
    refine (Step.tracks_count _).imp fun _ φ htrace'' _ hsame => ⟨.inl ⟨o, ?_⟩,
      hsurveyed.extend h'.sound .refl (htrace'.trans htrace'')⟩
    rw [hsame.1]
    exact hcleared'
  · refine (Step.tracks_warn _).imp fun _ υ htrace' _ _ => ?_
    obtain ⟨⟨m, hm, y, hy, hbarred⟩, hpassed⟩ := hresult
    have hsurveyed : i.Surveyed scope σ τ d.offset := ⟨d, id, o, layout, rfl, ho', hpassed⟩
    exact ⟨.inr ⟨d, layout, ho.at_, ho.reads, m, hm, y, hy, hbarred.later h'.sound htrace'⟩,
      hsurveyed.extend h'.sound .refl htrace'⟩
  · exact hresult.elim

/-- The second pass leaves every structure that was pending complete, or lacking a member for
good, having gone over its members. -/
theorem tracks_runSecondPass (hi : i.info.Indexed) (hrepairs : scope.repairs) (h : i.Idle σ)
    (hroots : ∀ x ∈ σ.session.cache.pending, ∀ d layout, i.info.dieAt x = .ok d →
      d.layout = .ok layout → ∀ m ∈ layout, ∀ y, m.typeOffset = some y → scope.roots y) :
    Step.Tracks i scope σ i.runSecondPass fun _ τ =>
      ∀ x ∈ σ.session.cache.pending, i.Repaired τ x ∧ i.Surveyed scope σ τ x := by
  refine Step.tracks_get_bind (Step.tracks_forM_all ?_ ?_)
  · intro x hx τ htrace hstack
    obtain ⟨o, htype⟩ := OffsetCache.mem_pending.mp hx
    obtain ⟨d, id, layout, hat, hdefines, hmade, hrecord, hlayout⟩ := h.sound.pending htype
    have hoffset := hi.offset_of_dieAt hat
    subst hoffset
    have ho : i.Owned σ d id o layout := ⟨hat, hdefines, hmade, ⟨true, htype⟩, hrecord, hlayout⟩
    refine (tracks_repair hi hrepairs (h.later htrace hstack) (ho.later h.sound htrace)
      (hroots d.offset hx d layout hat hlayout)).imp fun _ υ htrace' _ hend => ?_
    have hs := Trace.sound h.sound (htrace.trans htrace')
    exact ⟨hend.1, hend.2.extend hs htrace .refl⟩
  · rintro x τ υ ht ht' ⟨hrepaired, hsurveyed⟩
    have hs := Trace.sound h.sound ht
    exact ⟨hrepaired.later hs ht', hsurveyed.extend hs .refl ht'⟩

end DebugSymbols.Importer
