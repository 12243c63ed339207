import DebugSymbols.Proofs.ResolutionStack

/-!
Where handlers run.  `Invokes` names every run of a handler in the course of a command: those of
types, however deep they are nested, those of functions, variables and labels, and those of the
variables of a function.  `Step.Amid` says that one step is taken in the course of another and that
a relation holds up to there and from there on.  Main statement: `Invokes.amid`, for relations that
all steps keep and that hold when a type is entered or left (`Steady`).
-/

namespace DebugSymbols

variable {R : Session → Session → Prop} {α β γ : Type}

/-! ## Steps in the course of others -/

namespace Step

/-- On the way from the first session to the last a step is taken from the one between: the
relation holds up to there, and from the end of that step on. -/
structure Amid (R : Session → Session → Prop) (s : Session) (n : Step β) (t e : Session) :
    Prop where
  before : R s t
  behind : R (n.run t).2 e

variable {m : Step α} {n : Step β} {s t e : Session}

theorem Amid.refl [Calm R] (m : Step α) (s : Session) : Amid R s m s (m.run s).2 :=
  ⟨Calm.refl s, Calm.refl _⟩

theorem Amid.trans [Calm R] {k : Step γ} {u : Session} (h : Amid R s n t e)
    (h' : Amid R t k u (n.run t).2) : Amid R s k u e :=
  ⟨Calm.trans h.before h'.before, Calm.trans h'.behind h.behind⟩

/-- The other step is taken in the first of two steps. -/
theorem Amid.bind [Calm R] {f : α → Step γ} (h : Amid R s n t (m.run s).2)
    (hf : ∀ a, Keeps R (f a)) : Amid R s n t ((m >>= f).run s).2 :=
  ⟨h.before, Calm.trans h.behind (hf _ _)⟩

/-- The other step is taken in the second of two steps. -/
theorem Amid.after [Calm R] {f : α → Step γ} (hm : Keeps R m)
    (h : Amid R (m.run s).2 n t ((f (m.run s).1).run (m.run s).2).2) :
    Amid R s n t ((m >>= f).run s).2 :=
  ⟨Calm.trans (hm s) h.before, h.behind⟩

/-- The other step is taken for an element of a list. -/
theorem Amid.forM [Calm R] {f : α → Step PUnit} {before after : List α} {a : α}
    (hf : ∀ b, Keeps R (f b))
    (h : Amid R ((before.forM f).run s).2 n t ((f a).run ((before.forM f).run s).2).2) :
    Amid R s n t (((before ++ a :: after).forM f).run s).2 := by
  have heq : (before ++ a :: after).forM f = before.forM f >>= fun _ => (a :: after).forM f :=
    List.forM_append
  rw [heq]
  exact Amid.after (keeps_forM hf before) (h.bind fun _ => keeps_forM hf after)

end Step

namespace Attempt

variable {m : Attempt α} {n : Step β} {s t : Session}

theorem amid_bind [Calm R] {f : α → Attempt γ} (h : Step.Amid R s n t (m.run.run s).2)
    (hf : ∀ a, Keeps R (f a)) : Step.Amid R s n t ((m >>= f).run.run s).2 := by
  rw [ExceptT.run_bind]
  refine h.bind fun r => ?_
  cases r with
  | ok a => exact hf a
  | error e => exact Step.keeps_pure _

theorem amid_after [Calm R] {f : α → Attempt γ} {a : α} {u : Session} (hm : R s u)
    (hrun : m.run.run s = (.ok a, u)) (h : Step.Amid R u n t ((f a).run.run u).2) :
    Step.Amid R s n t ((m >>= f).run.run s).2 := by
  rw [run_bind_ok hrun]
  exact ⟨Calm.trans hm h.before, h.behind⟩

/-- The step that an attempt begins with. -/
theorem amid_lift_bind [Calm R] {f : β → Attempt γ} (hf : ∀ b, Keeps R (f b)) (s : Session) :
    Step.Amid R s n s ((liftM n >>= f : Attempt γ).run.run s).2 :=
  amid_bind (m := liftM n) (Step.Amid.refl n s) hf

end Attempt

namespace Importer

variable {i : Importer} {resolve : Resolver} {d : Die} {s t u : Session} {y : UInt64}

/-! ## Handlers that ask -/

theorem amid_modifier [Tolerant R] (hy : d.Modifies y)
    (hname : d.tag = .typedef → ∃ name, d.name = .ok name) (s : Session) :
    Step.Amid R s (resolve y) s ((i.describe resolve d).run.run s).2 := by
  obtain ⟨f, -, heq⟩ := describe_eq_ofTarget i hy hname
  rw [heq]
  refine Attempt.amid_lift_bind (fun r => ?_) s
  -- a resolver that knows the answer leaves just what comes after it
  have hknown : Attempt.Keeps R (i.describe (fun _ => pure r) d) :=
    keeps_describe (fun _ => Step.keeps_pure r) d
  rwa [heq] at hknown

theorem amid_addMembers [Tolerant R] (hr : Resolver.Keeps R resolve) {owner : UInt64}
    {id : StructId} {before after : List MemberLayout} {m : MemberLayout} {complete : Bool}
    (hy : m.typeOffset = some y)
    (hrun : (addMembers resolve owner id before).run.run s = (.ok complete, u)) :
    Step.Amid R s (resolve y) u
      ((addMembers resolve owner id (before ++ m :: after)).run.run s).2 := by
  have hbefore : R s ((addMembers resolve owner id before).run.run s).2 :=
    keeps_addMembers hr owner id before s
  rw [hrun] at hbefore
  have heq : addMembers resolve owner id (m :: after) = liftM (resolve y) >>= fun r => do
      let first ← addResolved owner id m r
      let others ← addMembers resolve owner id after
      return first && others := by
    simp [addMembers, addMember, hy]
  rw [addMembers_append]
  refine Attempt.amid_after hbefore hrun (Attempt.amid_bind ?_ fun _ => Attempt.keeps_pure _)
  rw [heq]
  refine Attempt.amid_lift_bind (fun r => Attempt.keeps_bind (keeps_addResolved _ _ _ r)
    fun _ => ?_) u
  exact Attempt.keeps_bind (keeps_addMembers hr _ _ _) fun _ => Attempt.keeps_pure _

/-- A new structure or union is known to a host that refuses nothing. -/
theorem structOrdinal_of_addStruct? {name : Option String} {isUnion : Bool}
    {id : StructId} {h : Host} (hopen : ∀ c, s.host.refuses c = false)
    (hadd : s.host.addStruct? name isUnion = some (id, h)) :
    ∃ o, { s with host := h }.structOrdinal id = .ok o := by
  obtain ⟨db, hdb, rfl⟩ := Host.addStruct?_eq_some hadd
  rw [Database.addStruct?_eq] at hdb
  obtain ⟨⟨taken, o, db₁⟩, hreserve, hpush⟩ := Option.map_eq_some_iff.mp hdb
  obtain ⟨-, -, hstructs⟩ := Database.reserve?_eq_some hreserve
  cases hpush
  refine ⟨o, ?_⟩
  simp [Session.structOrdinal, Host.structDef?, hopen, Database.structDef?, ← hstructs]

theorem structOrdinal_of_recordFor {id : StructId} (hopen : ∀ c, s.host.refuses c = false)
    (hrun : (i.recordFor d).run.run s = (.ok (id, false), t)) :
    ∃ o, t.structOrdinal id = .ok o := by
  have hlookup := recordLookup_recordFor (i := i) d s
  rw [hrun] at hlookup
  cases hlookup with
  | added hadd => exact structOrdinal_of_addStruct? hopen hadd

theorem amid_member [Tolerant R] (hr : Resolver.Keeps R resolve)
    (hopen : ∀ c, s.host.refuses c = false) {id : StructId} {before after : List MemberLayout}
    {m : MemberLayout} {complete : Bool} (hdef : d.DefinesRecord)
    (hlayout : d.layout = .ok (before ++ m :: after)) (hy : m.typeOffset = some y)
    (hrecord : (i.recordFor d).run.run s = (.ok (id, false), t))
    (hbefore : (addMembers resolve d.offset id before).run.run t = (.ok complete, u)) :
    Step.Amid R s (resolve y) u ((i.describe resolve d).run.run s).2 := by
  obtain ⟨o, ho⟩ := structOrdinal_of_recordFor hopen hrecord
  have hkeeps : R s ((i.recordFor d).run.run s).2 := keeps_recordFor d s
  rw [hrecord] at hkeeps
  rw [describe_eq_recordType hdef, recordType_eq hdef hlayout]
  refine Attempt.amid_after hkeeps hrecord (Attempt.amid_after (Calm.refl t) (run_ask ho) ?_)
  simp only [Bool.false_eq_true, if_false]
  exact Attempt.amid_bind (amid_addMembers hr hy hbefore) fun _ => Attempt.keeps_pure _

/-- What a handler asks for is asked for in its course. -/
theorem Asks.amid [Tolerant R] (hr : Resolver.Keeps R resolve)
    (hopen : ∀ c, s.host.refuses c = false) (h : i.Asks resolve d s y t) :
    Step.Amid R s (resolve y) t ((i.describe resolve d).run.run s).2 := by
  cases h with
  | target hy hname => exact amid_modifier hy hname s
  | member hdef hlayout hy hrecord hbefore =>
    exact amid_member hr hopen hdef hlayout hy hrecord hbefore

/-! ## Visits -/

theorem run_resolveWith_new {visit : Die → Step Outcome} (hget : s.cache.get? y = none)
    (hmem : y ∉ s.resolving) (hat : i.info.dieAt y = .ok d) :
    ((i.resolveWith visit y).run s).2 = ((visit d).run s).2 := by
  unfold resolveWith
  rw [StateT.run_bind, StateT.run_get, pure_bind]
  simp only [hget, hmem, if_false, hat]
  rfl

end Importer

/-- A relation that all steps keep, and that holds as well when a type is entered or left. -/
class Steady (R : Session → Session → Prop) : Prop extends Lenient R where
  enter : ∀ (s : Session) x, R s (Importer.entered s x)
  leave : ∀ x result, Step.Keeps R (Importer.leave x result)

open Importer

variable {i : Importer} {v w : Visit}

/-- A visit that is included in another is made in its course. -/
theorem Visit.Includes.amid [Steady R] (h : v.Includes i w)
    (hopen : ∀ c, v.session.host.refuses c = false) :
    Step.Amid R v.session (i.resolveDie w.levels w.die) w.session
      ((i.resolveDie v.levels v.die).run v.session).2 := by
  induction h with
  | refl v => exact .refl _ _
  | @nested v w levels d y s hnew hlevels hasks hget hmem hat _ ih =>
    have hopen' : ∀ c, v.begun.host.refuses c = false := hopen
    have hkept := hasks.amid (R := Session.Within) (keeps_resolveWith (keeps_resolveDie levels))
      hopen'
    have hasked := hasks.amid (R := R) (keeps_resolveWith (keeps_resolveDie levels)) hopen'
    have hinner := ih fun c => (congrFun hkept.before.host.refuses c).trans (hopen c)
    have hask : Step.Amid R v.begun (i.resolveDie levels d) s
        ((i.handle v.levels v.die).run v.begun).2 := by
      refine ⟨hasked.before, ?_⟩
      have hbehind := hasked.behind
      rw [run_resolveWith_new hget hmem hat] at hbehind
      rw [hlevels]
      exact hbehind
    have hvisit : Step.Amid R v.session (i.resolveDie levels d) s
        ((i.resolveDie v.levels v.die).run v.session).2 := by
      rw [run_resolveDie hnew.uncached hnew.notMem]
      have hhandled := hask.bind fun result => Steady.leave v.die.offset result
      exact ⟨Calm.trans (Steady.enter v.session v.die.offset) hhandled.before, hhandled.behind⟩
    exact hvisit.trans hinner

namespace Importer

variable {d : Die} {s t u : Session} {x y : UInt64}

/-! ## The second pass -/

theorem completeStruct_append (x : UInt64) (id : StructId) (before after : List MemberLayout) :
    i.completeStruct x id (before ++ after) = do
      let first ← i.completeStruct x id before
      let others ← i.completeStruct x id after
      return first && others := by
  induction before with
  | nil => simp only [List.nil_append, completeStruct, pure_bind, Bool.true_and, bind_pure]
  | cons m rest ih =>
    simp only [List.cons_append, completeStruct, ih, bind_assoc]
    refine bind_congr fun s => ?_
    split
    · simp only [bind_assoc, pure_bind, Bool.and_assoc]
    · simp only [bind_assoc, pure_bind, Bool.and_assoc]

/-- The type of a member that a structure lacks is visited when the member is added. -/
theorem amid_completeStruct [Lenient R] {id : StructId} {earlier later : List MemberLayout}
    {m : MemberLayout} {complete : Bool} {e : Die}
    (hrun : (i.completeStruct x id earlier).run.run t = (.ok complete, u))
    (hlacks : ∀ member ∈ ((u.host.structDef? id).elim [] (·.members)), member.name ≠ m.name)
    (hy : m.typeOffset = some y) (hget : u.cache.get? y = none) (hidle : u.resolving = [])
    (hat : i.info.dieAt y = .ok e) :
    Step.Amid R t (i.resolveDie i.config.maxResolveDepth e) u
      ((i.completeStruct x id (earlier ++ m :: later)).run.run t).2 := by
  have hbefore : R t ((i.completeStruct x id earlier).run.run t).2 :=
    keeps_completeStruct x id earlier t
  rw [hrun] at hbefore
  rw [completeStruct_append]
  refine Attempt.amid_after hbefore hrun (Attempt.amid_bind ?_ fun _ => Attempt.keeps_pure _)
  have hnone : ((u.host.structDef? id).elim [] (·.members)).any (·.name = m.name) = false := by
    simpa using hlacks
  have heq : (i.completeStruct x id (m :: later)).run.run u =
      ((liftM (i.resolve y) >>= fun r => do
        let first ← addResolved x id m r
        let others ← i.completeStruct x id later
        return first && others : Attempt Bool).run.run u) := by
    rw [completeStruct, Attempt.run_get_bind]
    simp [hnone, addMember, hy]
  rw [heq]
  have hmem : y ∉ u.resolving := by simp [hidle]
  have hask : Step.Amid R u (i.resolve y) u ((liftM (i.resolve y) >>= fun r => do
      let first ← addResolved x id m r
      let others ← i.completeStruct x id later
      return first && others : Attempt Bool).run.run u).2 := by
    refine Attempt.amid_lift_bind (fun r => Attempt.keeps_bind ?_ fun _ => ?_) u
    · exact keeps_addResolved _ _ _ r
    · exact Attempt.keeps_bind (keeps_completeStruct _ _ _) fun _ => Attempt.keeps_pure _
  have hbehind := hask.behind
  rw [resolve, run_resolveWith_new hget hmem hat] at hbehind
  exact ⟨hask.before, hbehind⟩

theorem amid_repaired [Lenient R] {before after : List UInt64} {e : Die} {id : StructId}
    {earlier later : List MemberLayout} {m : MemberLayout} {complete : Bool}
    (hpending : s.cache.pending = before ++ x :: after)
    (hrepaired : ((before.forM i.repair).run s).2 = t) (hat : i.info.dieAt x = .ok d)
    (hid : structOf x t = .ok id) (hlayout : d.layout = .ok (earlier ++ m :: later))
    (hrun : (i.completeStruct x id earlier).run.run t = (.ok complete, u))
    (hlacks : ∀ member ∈ ((u.host.structDef? id).elim [] (·.members)), member.name ≠ m.name)
    (hy : m.typeOffset = some y) (hget : u.cache.get? y = none) (hidle : u.resolving = [])
    (hat' : i.info.dieAt y = .ok e) :
    Step.Amid R s (i.resolveDie i.config.maxResolveDepth e) u (i.perform s .runSecondPass) := by
  have hcompleted : Step.Amid R t (i.resolveDie i.config.maxResolveDepth e) u
      ((i.completeAt x).run.run t).2 := by
    have hread {α : Type} {r : Except DebugInfo.Error α} {a : α} (hr : r = .ok a) :
        (Attempt.read r).run.run t = (.ok a, t) := by
      rw [hr]
      rfl
    refine Attempt.amid_after (Calm.refl t) (hread hat) ?_
    refine Attempt.amid_after (Calm.refl t) (run_ask hid) ?_
    refine Attempt.amid_after (Calm.refl t) (hread hlayout) ?_
    exact amid_completeStruct hrun hlacks hy hget hidle hat'
  change Step.Amid R s _ u ((s.cache.pending.forM i.repair).run s).2
  rw [hpending]
  refine Step.Amid.forM keeps_repair ?_
  rw [hrepaired]
  exact hcompleted.bind (keeps_completed x)

/-! ## Walks -/

/-- Walks over whole units in a phase, and over the first entries of the next one. -/
def approach (i : Importer) (phase : Phase) (before : List DebugInfo.Slot) (earlier : List Die) :
    Step Unit := do
  before.forM (i.visitUnit phase)
  countUnit phase fun s => { s with unitsOk := s.unitsOk + 1 }
  earlier.forM (i.visitOnce phase)

/-- Where a walk arrives at an entry, that is visited in its course. -/
theorem amid_visitUnits [Lenient R] {phase : Phase} {before after : List DebugInfo.Slot}
    {slot : DebugInfo.Slot} {unit : CompilationUnit} {earlier later : List Die}
    (hunits : i.info.units.toList = before ++ slot :: after) (hslot : slot.content = .ok unit)
    (hdies : unit.dies = earlier ++ d :: later)
    (hrun : ((i.approach phase before earlier).run s).2 = t) :
    Step.Amid R s (i.visitOnce phase d) t ((i.visitUnits phase).run s).2 := by
  unfold visitUnits
  rw [hunits]
  refine Step.Amid.forM (keeps_visitUnit (keeps_visitOnce phase)) ?_
  have hunit : i.visitUnit phase slot = (do
      countUnit phase fun s => { s with unitsOk := s.unitsOk + 1 }
      (earlier ++ d :: later).forM (i.visitOnce phase)) := by
    rw [visitUnit, hslot, ← hdies]
  rw [hunit]
  refine Step.Amid.after
    (keeps_countUnit _ (fun _ => ⟨rfl, rfl, rfl, rfl, rfl, rfl⟩) fun _ => rfl) ?_
  refine Step.Amid.forM (keeps_visitOnce phase) ?_
  subst hrun
  exact .refl (i.visitOnce phase d) ((i.approach phase before earlier).run s).2

theorem amid_started [Lenient R] (h : i.Starts s v) :
    Step.Amid R s (i.resolveDie v.levels v.die) v.session (i.perform s .runTypes) := by
  obtain @⟨before, after, slot, u, earlier, later, d, t, hunits, hslot, hdies, htag, hrun, hhas⟩ :=
    h
  have hwalk : Step.Amid R s (i.visitOnce .types d) t (i.perform s .runTypes) :=
    amid_visitUnits hunits hslot hdies hrun
  have hvisit : ((i.visitOnce .types d).run t).2 =
      ((i.resolveDie i.config.maxResolveDepth d).run t).2 := by
    rw [run_visitOnce, hhas, if_neg Bool.false_ne_true, visit, if_pos htag]
    rfl
  have hbehind := hwalk.behind
  rw [hvisit] at hbehind
  exact ⟨hwalk.before, hbehind⟩

/-! ## Types -/

/-- A visit that a command begins with is made in its course. -/
theorem Begins.amid [Lenient R] {c : Command} (hidle : s.resolving = []) (h : i.Begins s c v) :
    Step.Amid R s (i.resolveDie v.levels v.die) v.session (i.perform s c) := by
  cases h with
  | @processed x d hhas hat htag =>
    have hrun : i.perform s (.process x .types) =
        ((i.resolveDie i.config.maxResolveDepth d).run s).2 := by
      change ((if s.cache.has x then pure false else do
        let d ← Attempt.read (i.info.dieAt x)
        i.visit .types d : Attempt Bool).run.run s).2 = _
      rw [hhas, hat, if_neg Bool.false_ne_true]
      change ((i.visit .types d).run s).2 = _
      rw [visit, if_pos htag]
      rfl
    rw [hrun]
    exact .refl _ s
  | walked hstarts => exact amid_started hstarts
  | @repaired before after x y d e id earlier later m complete t u hpending hrepaired hat hid
      hlayout hrun hlacks hy hget hat' =>
    have hsame : Session.SameStack s ((before.forM i.repair).run s).2 :=
      Step.keeps_forM keeps_repair _ s
    have hsame' : Session.SameStack t ((i.completeStruct x id earlier).run.run t).2 :=
      keeps_completeStruct x id earlier t
    rw [hrepaired] at hsame
    rw [hrun] at hsame'
    have hidle' : u.resolving = [] := hsame'.trans (hsame.trans hidle)
    exact amid_repaired hpending hrepaired hat hid hlayout hrun hlacks hy hget hidle' hat'

/-! ## Functions, variables and labels -/

/-- The entries that the second phase arrives at before they are done with. -/
inductive Arrives (i : Importer) (s : Session) : Command → Die → Session → Prop
  | processed {x : UInt64} {d : Die} :
      s.cache.has x = false → i.info.dieAt x = .ok d → d.offset = x →
      Arrives i s (.process x .frames) d s
  | walked {before after : List DebugInfo.Slot} {slot : DebugInfo.Slot} {u : CompilationUnit}
      {earlier later : List Die} {d : Die} {t : Session} :
      i.info.units.toList = before ++ slot :: after → slot.content = .ok u →
      u.dies = earlier ++ d :: later → ((i.approach .frames before earlier).run s).2 = t →
      t.cache.has d.offset = false → Arrives i s .runFrames d t

/-- The variables of a function that are come to before they are done with. -/
inductive Descends (i : Importer) (d : Die) (s : Session) : Frame → Die → Session → Prop
  | mk {lowPc : UInt64} {function : AddressRange} {locations : Option (List Location)}
      {before after : List Die} {v : Die} {t : Session} :
      d.tag = .subprogram → d.address? .lowPc = .ok (some lowPc) →
      s.host.functionAt? lowPc = some function → d.locations? .frameBase = .ok locations →
      (d.children.filter fun c => c.tag = .formalParameter || c.tag = .variable_) =
        before ++ v :: after →
      ((before.forM (i.visitLocal
        ⟨function, .ofLocations (locations.getD []) function i.config.machine⟩)).run s).2 = t →
      t.cache.has v.offset = false →
      Descends i d s ⟨function, .ofLocations (locations.getD []) function i.config.machine⟩ v t

theorem Arrives.uncached {c : Command} (h : i.Arrives s c d t) :
    t.cache.has d.offset = false := by
  cases h with
  | processed hhas _ hoffset => rwa [hoffset]
  | walked _ _ _ _ hhas => exact hhas

theorem Descends.uncached {frame : Frame} {v : Die} (h : i.Descends d s frame v t) :
    t.cache.has v.offset = false := by
  cases h with
  | mk _ _ _ _ _ _ hhas => exact hhas

theorem Arrives.amid [Lenient R] {c : Command} (h : i.Arrives s c d t) :
    Step.Amid R s (i.visitPlaced d) t (i.perform s c) := by
  cases h with
  | @processed x _ hhas hat _ =>
    have hrun : i.perform s (.process x .frames) = ((i.visitPlaced d).run s).2 := by
      change ((if s.cache.has x then pure false else do
        let d ← Attempt.read (i.info.dieAt x)
        i.visit .frames d : Attempt Bool).run.run s).2 = _
      rw [hhas, hat, if_neg Bool.false_ne_true]
      rfl
    rw [hrun]
    exact .refl _ s
  | walked hunits hslot hdies hrun hhas =>
    have hwalk : Step.Amid R s (i.visitOnce .frames d) t (i.perform s .runFrames) :=
      amid_visitUnits hunits hslot hdies hrun
    have hvisit : ((i.visitOnce .frames d).run t).2 = ((i.visitPlaced d).run t).2 := by
      rw [run_visitOnce, hhas, if_neg Bool.false_ne_true]
      rfl
    have hbehind := hwalk.behind
    rw [hvisit] at hbehind
    exact ⟨hwalk.before, hbehind⟩

theorem Descends.amid [Lenient R] {frame : Frame} {v : Die} (h : i.Descends d s frame v t) :
    Step.Amid R s (i.visitLocal frame v) t ((i.visitPlaced d).run s).2 := by
  obtain @⟨lowPc, function, locations, before, after, v, t, htag, hlowPc, hfunction, hlocations,
    hlocals, hrun, hhas⟩ := h
  let base := FrameBase.ofLocations (locations.getD []) function i.config.machine
  have hplaceLocals : (i.placeLocals d).run.run s = (do
      liftM ((before ++ v :: after).forM (i.visitLocal ⟨function, base⟩))
      return false : Attempt Bool).run.run s := by
    unfold placeLocals
    simp only [hlowPc, hlocations, hlocals, Attempt.read, pure_bind]
    rw [Attempt.run_get_bind]
    simp only [hfunction]
    rfl
  have hlocal : Step.Amid R s (i.visitLocal ⟨function, base⟩ v) t
      ((i.placeLocals d).run.run s).2 := by
    rw [hplaceLocals]
    refine Attempt.amid_bind ?_ fun _ => Attempt.keeps_pure _
    have hforM : Step.Amid R s (i.visitLocal ⟨function, base⟩ v) t
        (((before ++ v :: after).forM (i.visitLocal ⟨function, base⟩)).run s).2 := by
      refine Step.Amid.forM (keeps_visitLocal _) ?_
      rw [hrun]
      exact .refl _ t
    exact hforM
  have hhandler : i.frameHandler? d = some (i.placeLocals d) := by simp [frameHandler?, htag]
  rw [visitPlaced_eq hhandler]
  exact hlocal.bind (keeps_conclude d)

end Importer

/-! ## Runs of handlers -/

/-- A run of a handler: that of a type within a visit, that of an entry in the second phase, or
that of a variable of a function, with the session in which the entry is come to. -/
inductive Invocation where
  | ofType (visit : Visit)
  | ofEntry (d : Die) (session : Session)
  | ofLocal (frame : Frame) (d : Die) (session : Session)

namespace Invocation

def die : Invocation → Die
  | ofType v => v.die
  | ofEntry d _ | ofLocal _ d _ => d

/-- Where the entry is come to. -/
def session : Invocation → Session
  | ofType v => v.session
  | ofEntry _ s | ofLocal _ _ s => s

/-- The handler ends with an error. -/
def Fails (i : Importer) : Invocation → ImportError → Prop
  | ofType v, e => ((i.handle v.levels v.die).run v.begun).1 = .error e
  | ofEntry d s, e => ∃ m, i.frameHandler? d = some m ∧ (m.run.run s).1 = .error e
  | ofLocal frame d s, e => ((i.placeVariable frame d).run.run s).1 = .error e

/-- The session once what the handler came to has been dealt with. -/
def after (i : Importer) : Invocation → Session
  | ofType v => ((i.resolveDie v.levels v.die).run v.session).2
  | ofEntry d s => ((i.visitPlaced d).run s).2
  | ofLocal frame d s => ((i.visitLocal frame d).run s).2

end Invocation

namespace Importer

variable {c : Command} {a : Invocation} {s : Session}

/-- The runs of handlers in the course of a command. -/
inductive Invokes (i : Importer) (s : Session) (c : Command) : Invocation → Prop
  | ofType {v w : Visit} :
      i.Begins s c v → v.Includes i w → w.IsNew → Invokes i s c (.ofType w)
  | ofEntry {d : Die} {t : Session} {m : Attempt Bool} :
      i.Arrives s c d t → i.frameHandler? d = some m → Invokes i s c (.ofEntry d t)
  | ofLocal {d v : Die} {frame : Frame} {t u : Session} :
      i.Arrives s c d t → i.Descends d t frame v u → Invokes i s c (.ofLocal frame v u)

/-- A handler runs for an entry only if that is not done with. -/
theorem Invokes.uncached (h : i.Invokes s c a) :
    a.session.cache.has a.die.offset = false := by
  cases h with
  | ofType _ _ hnew =>
    have hget := hnew.uncached
    simp [Invocation.session, Invocation.die, OffsetCache.has, hget]
  | ofEntry harrives _ => exact harrives.uncached
  | ofLocal _ hdescends => exact hdescends.uncached

/-- Up to a run of a handler, and from there on, a command does what all steps do. -/
theorem Invokes.amid [Steady R] (hidle : s.resolving = []) (hopen : ∀ c, s.host.refuses c = false)
    (h : i.Invokes s c a) : R s a.session ∧ R (a.after i) (i.perform s c) := by
  cases h with
  | @ofType v w hbegins hincludes hnew =>
    have hkept := hbegins.amid (R := Session.Within) hidle
    have hbegun := hbegins.amid (R := R) hidle
    have hvisit := hbegun.trans
      (hincludes.amid fun c => (congrFun hkept.before.host.refuses c).trans (hopen c))
    exact ⟨hvisit.before, hvisit.behind⟩
  | ofEntry harrives _ =>
    have hvisit := harrives.amid (R := R)
    exact ⟨hvisit.before, hvisit.behind⟩
  | ofLocal harrives hdescends =>
    have hvisit := (harrives.amid (R := R)).trans hdescends.amid
    exact ⟨hvisit.before, hvisit.behind⟩

/-- The runs of handlers in the course of some commands. -/
inductive InvokesAmong (i : Importer) (s : Session) : List Command → Invocation → Prop
  | mk {before after : List Command} {c : Command} {a : Invocation} :
      i.Invokes (i.performAll before s) c a → InvokesAmong i s (before ++ c :: after) a

end Importer

end DebugSymbols
