import DebugSymbols.Proofs.Import.Commands

/-!
Visits within visits.  `Visit.Includes` follows the handler of an entry to the visits that it asks
for, and `Starts` names the visits that a walk over all entries begins with.  Whatever visit is
reached in this way, a trace leads there, and on from its end (`Through`).
-/

namespace DebugSymbols

open Importer

/-- A visit of an entry: how many levels of types may be nested in it, and the session in which it
begins. -/
structure Visit where
  levels : Nat
  die : Die
  session : Session

namespace Importer

/-- The handler of an entry, when it runs from the first session, asks for the type at an offset in
the second one. -/
inductive Asks (i : Importer) (resolve : Resolver) (d : Die) (s : Session) (y : UInt64) :
    Session → Prop
  | target : d.Modifies y → (d.tag = .typedef → ∃ name, d.name = .ok name) →
      Asks i resolve d s y s
  | member {id : StructId} {before after : List MemberLayout} {m : MemberLayout}
      {complete : Bool} {t u : Session} :
      d.DefinesRecord → d.layout = .ok (before ++ m :: after) → m.typeOffset = some y →
      (i.recordFor d).run.run s = (.ok (id, false), t) →
      (addMembers resolve d.offset id before).run.run t = (.ok complete, u) →
      Asks i resolve d s y u

/-- Walks over the types of whole units, and of the first entries of the next one. -/
def walk (i : Importer) (before : List DebugInfo.Slot) (earlier : List Die) : Step Unit := do
  before.forM (i.visitUnit .types)
  countUnit .types fun s => { s with unitsOk := s.unitsOk + 1 }
  earlier.forM (i.visitOnce .types)

/-- The visits that a walk over all types begins with. -/
inductive Starts (i : Importer) (s : Session) : Visit → Prop
  | mk {before after : List DebugInfo.Slot} {slot : DebugInfo.Slot} {u : CompilationUnit}
      {earlier later : List Die} {d : Die} {t : Session} :
      i.info.units.toList = before ++ slot :: after → slot.content = .ok u →
      u.dies = earlier ++ d :: later → d.tag.isType = true →
      ((i.walk before earlier).run s).2 = t →
      t.cache.has d.offset = false → Starts i s ⟨i.config.maxResolveDepth, d, t⟩

end Importer

namespace Visit

/-- The entry is neither done with nor being resolved, so its handler runs. -/
structure IsNew (v : Visit) : Prop where
  uncached : v.session.cache.get? v.die.offset = none
  notMem : v.die.offset ∉ v.session.resolving

/-- The session in which the handler begins. -/
def begun (v : Visit) : Session := entered v.session v.die.offset

/-- The second visit is made in the course of the first. -/
inductive Includes (i : Importer) : Visit → Visit → Prop
  | refl (v : Visit) : Includes i v v
  | nested {v w : Visit} {levels : Nat} {d : Die} {y : UInt64} {s : Session} :
      v.IsNew → v.levels = levels + 1 →
      i.Asks (i.resolveWith (i.resolveDie levels)) v.die v.begun y s →
      s.cache.get? y = none → y ∉ s.resolving → i.info.dieAt y = .ok d →
      Includes i ⟨levels, d, s⟩ w → Includes i v w

/-- The handler makes a structure or union for the entry. -/
structure Makes (i : Importer) (v : Visit) (id : StructId) : Prop where
  isNew : v.IsNew
  levels : v.levels ≠ 0
  defines : v.die.DefinesRecord
  layout : ∃ layout, v.die.layout = .ok layout
  run : ∃ t, (i.recordFor v.die).run.run v.begun = (.ok (id, false), t)

end Visit

variable {i : Importer} {scope : Scope} {σ : History} {α β γ δ : Type}

/-! ## Steps within steps -/

namespace Step

/-- In the course of a step another one is run: a trace leads there, and however it ends, a trace
leads on to the end of the first step, which is as stated. -/
structure Through (i : Importer) (scope : Scope) (σ : History) (m : Step α)
    (post : α → History → Prop) (μ : History) (n : Step β) (mid : β → History → Prop) : Prop where
  before : i.Trace scope σ μ
  behind : ∀ b ν, n.run μ.session = (b, ν.session) → i.Trace scope μ ν →
    ν.session.resolving = μ.session.resolving → mid b ν →
    ∃ a τ, m.run σ.session = (a, τ.session) ∧ i.Trace scope ν τ ∧
      τ.session.resolving = σ.session.resolving ∧ post a τ

variable {μ : History} {m : Step α} {n : Step β} {post : α → History → Prop}
  {mid : β → History → Prop}

theorem Through.refl (i : Importer) (scope : Scope) (σ : History) (m : Step α)
    (post : α → History → Prop) : Through i scope σ m post σ m post :=
  ⟨.refl, fun b ν hrun _ hstack hpost => ⟨b, ν, hrun, .refl, hstack, hpost⟩⟩

/-- Only the run from that history matters. -/
theorem Through.congr {m' : Step α} (h : Through i scope σ m post μ n mid)
    (hrun : m'.run σ.session = m.run σ.session) : Through i scope σ m' post μ n mid := by
  refine ⟨h.before, fun b ν hrun' htrace hstack hmid => ?_⟩
  rw [hrun]
  exact h.behind b ν hrun' htrace hstack hmid

theorem Through.trans {κ : History} {k : Step γ} {low : γ → History → Prop}
    (h : Through i scope σ m post μ n mid) (h' : Through i scope μ n mid κ k low) :
    Through i scope σ m post κ k low := by
  refine ⟨h.before.trans h'.before, fun c ν hrun htrace hstack hlow => ?_⟩
  obtain ⟨b, ν', hrun', htrace', hstack', hmid⟩ := h'.behind c ν hrun htrace hstack hlow
  obtain ⟨a, τ, hrun'', htrace'', hstack'', hpost⟩ :=
    h.behind b ν' hrun' ((h'.before.trans htrace).trans htrace') hstack' hmid
  exact ⟨a, τ, hrun'', htrace'.trans htrace'', hstack'', hpost⟩

/-- The other step is run in the first of two steps. -/
theorem Through.bind {f : α → Step γ} {last : γ → History → Prop}
    (h : Through i scope σ m post μ n mid)
    (hf : ∀ a τ, i.Trace scope σ τ → τ.session.resolving = σ.session.resolving → post a τ →
      Tracks i scope τ (f a) last) :
    Through i scope σ (m >>= f) last μ n mid := by
  refine ⟨h.before, fun b ν hrun htrace hstack hmid => ?_⟩
  obtain ⟨a, τ, hrun', htrace', hstack', hpost⟩ := h.behind b ν hrun htrace hstack hmid
  obtain ⟨c, υ, hrun'', htrace'', hstack'', hlast⟩ :=
    hf a τ ((h.before.trans htrace).trans htrace') hstack' hpost
  refine ⟨c, υ, ?_, htrace'.trans htrace'', hstack''.trans hstack', hlast⟩
  rw [StateT.run_bind, hrun']
  exact hrun''

/-- The other step is run in the second of two steps. -/
theorem Through.after {τ : History} {a : α} {f : α → Step γ} {last : γ → History → Prop}
    (hrun : m.run σ.session = (a, τ.session)) (htrace : i.Trace scope σ τ)
    (hstack : τ.session.resolving = σ.session.resolving)
    (h : Through i scope τ (f a) last μ n mid) : Through i scope σ (m >>= f) last μ n mid := by
  refine ⟨htrace.trans h.before, fun b ν hrun' htrace' hstack' hmid => ?_⟩
  obtain ⟨c, υ, hrun'', htrace'', hstack'', hlast⟩ := h.behind b ν hrun' htrace' hstack' hmid
  refine ⟨c, υ, ?_, htrace'', hstack''.trans hstack, hlast⟩
  rw [StateT.run_bind, hrun]
  exact hrun''

theorem Through.imp {post' : α → History → Prop} (h : Through i scope σ m post μ n mid)
    (himp : ∀ a τ, post a τ → post' a τ) : Through i scope σ m post' μ n mid := by
  refine ⟨h.before, fun b ν hrun htrace hstack hmid => ?_⟩
  obtain ⟨a, τ, hrun', htrace', hstack', hpost⟩ := h.behind b ν hrun htrace hstack hmid
  exact ⟨a, τ, hrun', htrace', hstack', himp a τ hpost⟩

end Step

namespace Attempt

variable {μ : History} {n : Step β} {mid : β → History → Prop} {m : Attempt α}
  {f : α → Attempt γ} {ok : α → History → Prop} {ok' : γ → History → Prop}
  {err : ImportError → History → Prop}

theorem through_bind (h : Step.Through i scope σ m.run (Ends ok err) μ n mid)
    (hf : ∀ a τ, i.Trace scope σ τ → τ.session.resolving = σ.session.resolving → ok a τ →
      Tracks i scope τ (f a) ok' err) :
    Step.Through i scope σ (m >>= f).run (Ends ok' err) μ n mid := by
  rw [ExceptT.run_bind]
  refine h.bind fun r τ htrace hstack hend => ?_
  cases r with
  | ok a => exact hf a τ htrace hstack hend
  | error e => exact Step.tracks_pure hend

theorem through_after {τ : History} {a : α} (hrun : m.run.run σ.session = (.ok a, τ.session))
    (htrace : i.Trace scope σ τ) (hstack : τ.session.resolving = σ.session.resolving)
    (h : Step.Through i scope τ (f a).run (Ends ok' err) μ n mid) :
    Step.Through i scope σ (m >>= f).run (Ends ok' err) μ n mid := by
  rw [ExceptT.run_bind]
  exact Step.Through.after hrun htrace hstack h

/-- The step that an attempt begins with. -/
theorem through_lift_bind {f : β → Attempt γ}
    (hf : ∀ b τ, i.Trace scope σ τ → τ.session.resolving = σ.session.resolving → mid b τ →
      Tracks i scope τ (f b) ok' err) :
    Step.Through i scope σ (liftM n >>= f).run (Ends ok' err) σ n mid := by
  have heq : (liftM n >>= f : Attempt γ).run = n >>= fun b => (f b).run := by
    change (ExceptT.lift n >>= f).run = _
    simp
  rw [heq]
  exact (Step.Through.refl i scope σ n mid).bind hf

end Attempt

namespace Importer

variable {d : Die} {resolve : Resolver} {y : UInt64}

/-! ## Handlers that ask -/

theorem onTarget_eq (hy : d.Modifies y) (f : Ordinal → Attempt Ordinal) :
    i.onTarget resolve d f = (do ofTarget f (← liftM (resolve y))) := by
  simp [onTarget, target, hy.2, Attempt.read]

/-- An attribute that can be read is there. -/
theorem hasAttribute_of_reference? (h : d.reference? .type = .ok (some y)) :
    d.hasAttribute .type = true := by
  unfold Die.reference? Die.optional at h
  unfold Die.hasAttribute
  split at h
  · simp_all
  · cases h

/-- The handler of an entry that is made from another type asks for that, and derives its own. -/
theorem describe_eq_ofTarget (i : Importer) (hy : d.Modifies y)
    (hname : d.tag = .typedef → ∃ name, d.name = .ok name) :
    ∃ f, (∀ scope, i.Derives scope d f) ∧
      ∀ resolve, i.describe resolve d = (do ofTarget f (← liftM (resolve y))) := by
  have hmodifier := hy.1
  unfold Tag.isModifier at hmodifier
  unfold describe
  split at hmodifier
  case h_1 htag | h_2 htag | h_3 htag =>
    rw [htag]
    exact ⟨_, fun _ => derives_derivedFrom (by simp [htag]), fun _ => onTarget_eq hy _⟩
  case h_4 htag =>
    obtain ⟨name, hname⟩ := hname htag
    rw [htag]
    simp only [typedefType, hname, Attempt.read, pure_bind]
    exact ⟨_, fun _ => derives_aliasOf htag hname, fun _ => onTarget_eq hy _⟩
  case h_5 htag =>
    have hattribute := hasAttribute_of_reference? hy.2
    rw [htag]
    simp only [arrayType, hattribute, Bool.not_true, Bool.false_eq_true, if_false]
    exact ⟨_, fun _ => derives_arrayOf htag hattribute, fun _ => onTarget_eq hy _⟩
  case h_6 htag =>
    rw [htag]
    exact ⟨_, fun _ => derives_functionTo htag, fun _ => onTarget_eq hy _⟩
  case h_7 => cases hmodifier

theorem through_modifier (ht : i.Turn σ d) (hy : d.Modifies y)
    (hname : d.tag = .typedef → ∃ name, d.name = .ok name) :
    Step.Through i scope σ (i.describe resolve d).run
      (Attempt.Ends (fun out τ => i.Finding τ d out) fun _ _ => True) σ (resolve y)
      fun r τ => i.Answers τ y r := by
  obtain ⟨f, hf, heq⟩ := describe_eq_ofTarget i hy hname
  rw [heq]
  exact Attempt.through_lift_bind fun r τ htrace hstack hanswer =>
    describes_ofTarget (ht.later htrace hstack) hy.1 (hf scope) (hanswer.target hy)

theorem addMembers_append (owner : UInt64) (id : StructId) (before after : List MemberLayout) :
    addMembers resolve owner id (before ++ after) = do
      let first ← addMembers resolve owner id before
      let others ← addMembers resolve owner id after
      return first && others := by
  induction before with
  | nil => simp only [List.nil_append, addMembers, pure_bind, Bool.true_and, bind_pure]
  | cons m rest ih =>
    simp only [List.cons_append, addMembers, ih, bind_assoc, pure_bind, Bool.and_assoc]

theorem through_addMembers_cons (hr : i.Resolves scope resolve) {id : StructId}
    {layout after : List MemberLayout} {m : MemberLayout} (hf : i.Fills scope σ d id layout)
    (hm : m :: after ⊆ layout) (hy : m.typeOffset = some y) :
    Step.Through i scope σ (addMembers resolve d.offset id (m :: after)).run
      (Attempt.Ends (fun complete τ => i.Settles τ (m :: after) complete) fun _ _ => False) σ
      (resolve y) fun r τ => i.Answers τ y r := by
  obtain ⟨hmem, hafter⟩ := List.cons_subset.mp hm
  have heq : addMembers resolve d.offset id (m :: after) = liftM (resolve y) >>= fun r => do
      let first ← addResolved d.offset id m r
      let others ← addMembers resolve d.offset id after
      return first && others := by
    simp [addMembers, addMember, hy]
  rw [heq]
  refine Attempt.through_lift_bind fun r τ htrace hstack hanswer => ?_
  have hf' := hf.later htrace hstack
  refine Attempt.tracks_bind (tracks_addResolved hf' hmem hy hanswer)
    fun first υ htrace' hstack' htried => ?_
  have hf'' := hf'.later htrace' hstack'
  refine Attempt.tracks_bind (tracks_addMembers hr hf'' hafter)
    fun others φ htrace'' hstack'' hsettles => ?_
  exact Attempt.tracks_pure
    (((htried.settles hy).later hf''.sound htrace'' hstack'').append hsettles)

/-- Tracking is no restriction: a run that is known is tracked. -/
theorem tracked_run {m : Attempt α} {ok : α → History → Prop}
    {err : ImportError → History → Prop} (h : Attempt.Tracks i scope σ m ok err) {a : α}
    {t : Session} (hrun : m.run.run σ.session = (.ok a, t)) :
    ∃ τ, τ.session = t ∧ i.Trace scope σ τ ∧ τ.session.resolving = σ.session.resolving ∧
      ok a τ := by
  obtain ⟨r, τ, hrun', htrace, hstack, hend⟩ := h
  rw [hrun] at hrun'
  cases hrun'
  exact ⟨τ, rfl, htrace, hstack, hend⟩

theorem through_addMembers (hr : i.Resolves scope resolve) {id : StructId}
    {before after : List MemberLayout} {m : MemberLayout}
    (hf : i.Fills scope σ d id (before ++ m :: after)) (hy : m.typeOffset = some y)
    {complete : Bool} {u : Session}
    (hrun : (addMembers resolve d.offset id before).run.run σ.session = (.ok complete, u)) :
    ∃ μ, μ.session = u ∧ μ.session.resolving = σ.session.resolving ∧
      Step.Through i scope σ (addMembers resolve d.offset id (before ++ m :: after)).run
        (Attempt.Ends (fun complete τ => i.Settles τ (before ++ m :: after) complete)
          fun _ _ => False) μ
        (resolve y) fun r τ => i.Answers τ y r := by
  have hbefore := tracks_addMembers hr hf (List.subset_append_left before (m :: after))
  obtain ⟨μ, hμ, htrace, hstack, hsettles⟩ := tracked_run hbefore hrun
  have hf' := hf.later htrace hstack
  refine ⟨μ, hμ, hstack, ?_⟩
  rw [addMembers_append]
  rw [← hμ] at hrun
  refine Attempt.through_after hrun htrace hstack ?_
  refine Attempt.through_bind
    (through_addMembers_cons hr hf' (List.subset_append_right before (m :: after)) hy) ?_
  intro others υ htrace' hstack' hothers
  exact Attempt.tracks_pure ((hsettles.later hf'.sound htrace' hstack').append hothers)

theorem recordType_eq (hdef : d.DefinesRecord) {layout : List MemberLayout}
    (hlayout : d.layout = .ok layout) :
    i.recordType resolve d = do
      let (id, existed) ← i.recordFor d
      let ordinal ← Attempt.ask (·.structOrdinal id)
      if existed then return settled ordinal
      let complete ← addMembers resolve d.offset id layout
      return .type ordinal !complete := by
  simp [recordType, hdef.2, hlayout, Attempt.read]

theorem describe_eq_recordType (hdef : d.DefinesRecord) :
    i.describe resolve d = i.recordType resolve d := by
  unfold describe
  rcases isRecord_iff.mp hdef.1 with htag | htag
  all_goals rw [htag]

theorem run_ask {f : Session → Except ImportError α} {a : α} {s : Session} (h : f s = .ok a) :
    (Attempt.ask f).run.run s = (.ok a, s) := by
  have hask := Attempt.run_ask_bind f pure s
  rw [bind_pure, h] at hask
  exact hask

theorem through_member (hr : i.Resolves scope resolve) (ht : i.Turn σ d)
    (hfresh : σ.Fresh d.offset) {id : StructId} {before after : List MemberLayout}
    {m : MemberLayout} {complete : Bool} {t u : Session}
    (hdef : d.DefinesRecord) (hlayout : d.layout = .ok (before ++ m :: after))
    (hy : m.typeOffset = some y)
    (hrecord : (i.recordFor d).run.run σ.session = (.ok (id, false), t))
    (hbefore : (addMembers resolve d.offset id before).run.run t = (.ok complete, u)) :
    ∃ μ, μ.session = u ∧ μ.session.resolving = σ.session.resolving ∧
      Step.Through i scope σ (i.describe resolve d).run
        (Attempt.Ends (fun out τ => i.Finding τ d out) fun _ _ => True) μ (resolve y)
        fun r τ => i.Answers τ y r := by
  obtain ⟨τ, hτ, htrace, hstack, hgot⟩ :=
    tracked_run (tracks_recordFor ht hfresh hdef ⟨_, hlayout⟩) hrecord
  have ht' := ht.later htrace hstack
  obtain ⟨hmade, def_, hget, hkind⟩ := hgot
  have hfills : i.Fills scope τ d id (before ++ m :: after) :=
    Got.fills ht' hdef hlayout ⟨hmade, def_, hget, hkind⟩
  rw [← hτ] at hbefore hrecord
  obtain ⟨μ, hμ, hstack', hthrough⟩ := through_addMembers hr hfills hy hbefore
  refine ⟨μ, hμ, hstack'.trans hstack, ?_⟩
  rw [describe_eq_recordType hdef, recordType_eq hdef hlayout]
  have hordinal : (Attempt.ask (·.structOrdinal id)).run.run τ.session =
      (.ok def_.ordinal, τ.session) :=
    run_ask (ht'.sound.structOrdinal.mpr ⟨def_, hget, rfl⟩)
  refine Attempt.through_after hrecord htrace hstack (Attempt.through_after hordinal .refl rfl ?_)
  simp only [Bool.false_eq_true, if_false]
  have hfill : Step.Through i scope τ
      (addMembers resolve d.offset id (before ++ m :: after)).run
      (Attempt.Ends (fun complete υ => i.Settles υ (before ++ m :: after) complete) fun _ _ => True)
      μ (resolve y) fun r υ => i.Answers υ y r :=
    hthrough.imp fun r υ hend => by
      cases r with
      | ok complete => exact hend
      | error e => exact hend.elim
  exact Attempt.through_bind hfill fun complete υ htrace' _ hsettles =>
    Attempt.tracks_pure (.made (made_of_settles hfills hdef hget hkind htrace' hsettles))

/-- What a handler asks for is asked for in its course. -/
theorem Asks.through (hr : i.Resolves scope resolve) (ht : i.Turn σ d)
    (hfresh : σ.Fresh d.offset) {s : Session} (h : i.Asks resolve d σ.session y s) :
    ∃ μ, μ.session = s ∧ μ.session.resolving = σ.session.resolving ∧ d.Refers y ∧
      Step.Through i scope σ (i.describe resolve d).run
        (Attempt.Ends (fun out τ => i.Finding τ d out) fun _ _ => True) μ (resolve y)
        fun r τ => i.Answers τ y r := by
  cases h with
  | target hy hname => exact ⟨σ, rfl, rfl, .inl hy, through_modifier ht hy hname⟩
  | @member id before after m complete t u hdef hlayout hy hrecord hbefore =>
    obtain ⟨μ, hμ, hstack, hthrough⟩ := through_member hr ht hfresh hdef hlayout hy hrecord hbefore
    exact ⟨μ, hμ, hstack, .inr ⟨hdef.1, _, hlayout, m, by simp, hy⟩, hthrough⟩

/-! ## Visits -/

/-- What is run in the course of a handler is run in the course of the visit. -/
theorem through_new {levels : Nat} {β : Type} {μ : History} {n : Step β} {mid : β → History → Prop}
    (hs : i.Sound σ) (hget : σ.session.cache.get? d.offset = none)
    (hmem : d.offset ∉ σ.session.resolving) (hat : i.info.dieAt d.offset = .ok d)
    (hask : i.MayAsk scope d.offset σ.session.resolving)
    (h : Step.Through i scope (opened σ d.offset)
      (i.describe (i.resolveWith (i.resolveDie levels)) d).run
      (Attempt.Ends (fun out τ => i.Finding τ d out) fun _ _ => True) μ n mid) :
    Step.Through i scope σ (i.resolveDie (levels + 1) d) (fun out τ => i.Became τ d.offset out) μ n
      mid := by
  have hopened := trace_opened hget hmem hat hask
  refine ⟨hopened.trans h.before, fun b ν hrun htrace hstack hmid => ?_⟩
  obtain ⟨result, τ, hrun', htrace', hstack', hend⟩ := h.behind b ν hrun htrace hstack hmid
  have hs' := Trace.sound hs (((hopened.trans h.before).trans htrace).trans htrace')
  have hfinding : i.Finding τ d (outcomeOf result) := by
    cases result with
    | ok out => exact hend
    | error e => exact .useless
  obtain ⟨υ, hrun'', htrace'', hstack'', hbecame⟩ := leave_handled hs' hstack' hat hfinding
  refine ⟨outcomeOf result, υ, ?_, htrace'.trans htrace'', hstack'', hbecame⟩
  rw [run_resolveDie hget hmem, StateT.run_bind]
  change (do
    let p ← (i.describe (i.resolveWith (i.resolveDie levels)) d).run.run (opened σ d.offset).session
    _) = _
  rw [hrun']
  exact hrun''

/-- A resolver that knows nothing of an entry visits it. -/
theorem through_resolveWith {visit : Die → Step Outcome} (hget : σ.session.cache.get? y = none)
    (hmem : y ∉ σ.session.resolving) (hat : i.info.dieAt y = .ok d) (hoffset : d.offset = y) :
    Step.Through i scope σ (i.resolveWith visit y) (fun r τ => i.Answers τ y r) σ (visit d)
      fun out τ => i.Became τ d.offset out := by
  have hthrough : Step.Through i scope σ (visit d >>= fun out => pure out.toRef)
      (fun r τ => i.Answers τ y r) σ (visit d) fun out τ => i.Became τ d.offset out :=
    (Step.Through.refl i scope σ (visit d) _).bind fun out τ _ _ hbecame =>
      Step.tracks_pure (hoffset ▸ hbecame.answers)
  refine hthrough.congr ?_
  unfold resolveWith
  rw [StateT.run_bind, StateT.run_get, pure_bind]
  simp only [hget, hmem, if_false, hat]

end Importer

/-- A visit that is included in another is made in its course. -/
theorem Visit.Includes.through (hi : i.info.Indexed) {v w : Visit} (h : v.Includes i w)
    (hσ : σ.session = v.session) (hs : i.Sound σ) (hat : i.info.dieAt v.die.offset = .ok v.die)
    (hask : i.MayAsk scope v.die.offset σ.session.resolving) :
    ∃ μ, μ.session = w.session ∧ i.info.dieAt w.die.offset = .ok w.die ∧
      i.MayAsk scope w.die.offset μ.session.resolving ∧
      Step.Through i scope σ (i.resolveDie v.levels v.die)
        (fun out τ => i.Became τ v.die.offset out) μ (i.resolveDie w.levels w.die)
        fun out τ => i.Became τ w.die.offset out := by
  induction h generalizing σ with
  | refl v => exact ⟨σ, hσ, hat, hask, .refl ..⟩
  | @nested v w levels d y s hnew hlevels hasks hget hmem hat' _ ih =>
    have hget₀ : σ.session.cache.get? v.die.offset = none := hσ ▸ hnew.uncached
    have hmem₀ : v.die.offset ∉ σ.session.resolving := hσ ▸ hnew.notMem
    have hopened := trace_opened hget₀ hmem₀ hat hask
    have hturn : i.Turn (opened σ v.die.offset) v.die := ⟨Trace.sound hs hopened, hat, rfl⟩
    have hfresh : (opened σ v.die.offset).Fresh v.die.offset := hs.fresh hget₀ hmem₀
    have hsession : (opened σ v.die.offset).session = v.begun := by
      change entered σ.session v.die.offset = entered v.session v.die.offset
      rw [hσ]
    rw [← hsession] at hasks
    have hresolves : i.Resolves scope (i.resolveWith (i.resolveDie levels)) :=
      resolves_resolveWith hi (visits_resolveDie hi levels)
    obtain ⟨μ, rfl, hstack, hrefers, hthrough⟩ := hasks.through hresolves hturn hfresh
    have hoffset := hi.offset_of_dieAt hat'
    subst hoffset
    have hvisit := (through_new hs hget₀ hmem₀ hat hask hthrough).trans
      (through_resolveWith hget hmem hat' rfl)
    have hs' := Trace.sound hs hvisit.before
    have hask' : i.MayAsk scope d.offset μ.session.resolving := by
      rw [hstack]
      exact hturn.mayAsk hrefers
    obtain ⟨κ, hκ, hat'', hask'', hinner⟩ := ih rfl hs' hat' hask'
    rw [hlevels]
    exact ⟨κ, hκ, hat'', hask'', hvisit.trans hinner⟩

/-! ## Walks -/

/-- A step that is taken for an element in the course of those for all of a list. -/
theorem Step.through_forM {α β : Type} {f : α → Step PUnit} {before after : List α} {a : α}
    {P : History → Prop} {n : Step β} {mid : β → History → Prop} {t : Session}
    (hf : ∀ b ∈ before ++ a :: after, ∀ τ, i.Trace scope σ τ →
      τ.session.resolving = σ.session.resolving → Step.Tracks i scope τ (f b) fun _ _ => True)
    (hrun : ((before.forM f).run σ.session).2 = t)
    (hin : ∀ τ, τ.session = t → i.Trace scope σ τ → τ.session.resolving = σ.session.resolving →
      ∃ μ, P μ ∧ Step.Through i scope τ (f a) (fun _ _ => True) μ n mid) :
    ∃ μ, P μ ∧
      Step.Through i scope σ ((before ++ a :: after).forM f) (fun _ _ => True) μ n mid := by
  have hbefore : Step.Tracks i scope σ (before.forM f) fun _ _ => True :=
    Step.tracks_forM fun b hb τ htrace hstack => hf b (by simp [hb]) τ htrace hstack
  obtain ⟨u, τ, hrun', htrace, hstack, -⟩ := hbefore
  rw [hrun'] at hrun
  obtain ⟨μ, hP, hthrough⟩ := hin τ hrun htrace hstack
  refine ⟨μ, hP, ?_⟩
  have heq : (before ++ a :: after).forM f = before.forM f >>= fun _ => (a :: after).forM f :=
    List.forM_append
  rw [heq]
  refine Step.Through.after hrun' htrace hstack ?_
  refine hthrough.bind fun _ υ htrace' hstack' _ => ?_
  refine Step.tracks_forM fun b hb φ htrace'' hstack'' => ?_
  exact hf b (by simp [hb]) φ ((htrace.trans htrace').trans htrace'')
    (hstack''.trans (hstack'.trans hstack))

namespace Importer

theorem through_visitOnce (d : Die) (htag : d.tag.isType = true)
    (hhas : σ.session.cache.has d.offset = false) :
    Step.Through i scope σ (i.visitOnce .types d) (fun _ _ => True) σ
      (i.resolveDie i.config.maxResolveDepth d) fun out τ => i.Became τ d.offset out := by
  have hthrough : Step.Through i scope σ
      (i.resolveDie i.config.maxResolveDepth d >>= fun _ => pure PUnit.unit) (fun _ _ => True) σ
      (i.resolveDie i.config.maxResolveDepth d) fun out τ => i.Became τ d.offset out :=
    (Step.Through.refl i scope σ _ _).bind fun _ _ _ _ _ => Step.tracks_pure trivial
  refine hthrough.congr ?_
  unfold visitOnce visit
  rw [StateT.run_bind, StateT.run_get, pure_bind]
  simp only [hhas, htag, if_true, Bool.not_false, bind_assoc, pure_bind]

/-- The visit of an entry is made in the course of a walk over its unit. -/
theorem through_visitAll (hi : i.info.Indexed) (hroots : ∀ x, scope.roots x) (h : i.Idle σ)
    {earlier later : List Die} {d : Die} {t : Session}
    (hholds : ∀ b ∈ earlier ++ d :: later, i.info.dieAt b.offset = .ok b)
    (htag : d.tag.isType = true) (hhas : t.cache.has d.offset = false)
    (hrun : ((earlier.forM (i.visitOnce .types)).run σ.session).2 = t) :
    ∃ μ, (μ.session = t ∧ i.info.dieAt d.offset = .ok d ∧
        i.MayAsk scope d.offset μ.session.resolving) ∧
      Step.Through i scope σ ((earlier ++ d :: later).forM (i.visitOnce .types)) (fun _ _ => True)
        μ (i.resolveDie i.config.maxResolveDepth d) fun out τ => i.Became τ d.offset out := by
  refine Step.through_forM (fun b hb τ htrace hstack =>
    (tracks_visitOnce hi .types (fun _ => hroots) (h.later htrace hstack)
      (hholds b hb)).imp fun _ _ _ _ _ => trivial) hrun ?_
  intro τ hτ htrace hstack
  have hidle := h.later htrace hstack
  exact ⟨τ, ⟨hτ, hholds d (by simp), hidle.mayAsk (hroots _)⟩,
    through_visitOnce d htag (hτ ▸ hhas)⟩

/-- The visits that a walk begins with are made in its course. -/
theorem Starts.through (hi : i.info.Indexed) (hroots : ∀ x, scope.roots x) (h : i.Idle σ)
    {v : Visit} (hv : i.Starts σ.session v) :
    ∃ μ, (μ.session = v.session ∧ i.info.dieAt v.die.offset = .ok v.die ∧
        i.MayAsk scope v.die.offset μ.session.resolving) ∧
      Step.Through i scope σ i.runTypes (fun _ _ => True) μ (i.resolveDie v.levels v.die)
        fun out τ => i.Became τ v.die.offset out := by
  obtain @⟨before, after, slot, u, earlier, later, d, t, hunits, hslot, hdies, htag, hrun, hhas⟩ :=
    hv
  have hmem (b : DebugInfo.Slot) (hb : b ∈ before ++ slot :: after) : b ∈ i.info.units := by
    rw [← hunits] at hb
    simpa using hb
  unfold runTypes visitUnits
  rw [hunits]
  refine Step.through_forM (fun b hb τ htrace hstack =>
    (tracks_visitUnit hi .types (fun _ => hroots) (h.later htrace hstack) (hmem b hb)).imp
      fun _ _ _ _ _ => trivial) rfl ?_
  intro τ hτ htrace hstack
  have h' := h.later htrace hstack
  unfold visitUnit
  simp only [hslot]
  have hcounted : Step.Tracks i scope τ
      (countUnit .types fun s => { s with unitsOk := s.unitsOk + 1 }) fun _ _ => True :=
    tracks_countUnit .types _
  obtain ⟨_, υ, hcount, htrace', hstack', -⟩ := hcounted
  have h'' := h'.later htrace' hstack'
  have hholds (b : Die) (hb : b ∈ earlier ++ d :: later) : i.info.dieAt b.offset = .ok b :=
    hi.dieAt_of_holds (DebugInfo.holds_of_mem_dies (hmem slot (by simp)) hslot (hdies ▸ hb))
  have hsession : ((earlier.forM (i.visitOnce .types)).run υ.session).2 = t := by
    have hυ : υ.session = ((countUnit .types fun s => { s with unitsOk := s.unitsOk + 1 }).run
        ((before.forM (i.visitUnit .types)).run σ.session).2).2 := by
      rw [← hτ, hcount]
    rw [hυ]
    exact hrun
  obtain ⟨μ, hP, hthrough⟩ := through_visitAll hi hroots h'' hholds htag hhas hsession
  refine ⟨μ, hP, ?_⟩
  rw [hdies]
  exact Step.Through.after hcount htrace' hstack' hthrough

end Importer

end DebugSymbols
