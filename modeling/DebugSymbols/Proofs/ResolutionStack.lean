import DebugSymbols.Proofs.Deferral
import DebugSymbols.Proofs.Import.Asking
import DebugSymbols.Proofs.Import.Careful

/-!
The stack of types that are being resolved.  Whatever entries refer to each other, a visit finds as
many types on the stack as levels were entered, each of them once, and leaves the stack as it was;
a handler runs only for an entry that is not on the stack yet, and at most as deep as the
configuration allows (`Visit.Disciplined`).  This holds of every visit that any command makes, and
of these there are finitely many in the course of each (`disciplined_performAll`).
-/

namespace DebugSymbols

open Importer

/-! ## Steps keep the stack -/

/-- The same types are being resolved. -/
def Session.SameStack (s t : Session) : Prop := t.resolving = s.resolving

open Session

instance : Lenient SameStack where
  refl _ := rfl
  trans h h' := h'.trans h
  host _ := rfl
  warn _ _ _ := rfl
  count _ _ _ _ := rfl
  dismiss _ _ := rfl
  blame _ _ _ := rfl
  visit s x result t h := by
    obtain ⟨stats, warnings, hrun⟩ := run_leave x result t
    rw [hrun]
    exact congrArg List.tail h
  tally _ _ _ := rfl
  place _ _ := rfl
  resolve _ _ := rfl

variable {i : Importer} {v w : Visit}

namespace Importer

variable {resolve : Resolver} {d : Die} {s t : Session} {y : UInt64}

theorem resolving_resolveDie (levels : Nat) (d : Die) (s : Session) :
    ((i.resolveDie levels d).run s).2.resolving = s.resolving :=
  keeps_resolveDie (R := SameStack) levels d s

theorem resolving_resolveWith (levels : Nat) (y : UInt64) (s : Session) :
    ((i.resolveWith (i.resolveDie levels) y).run s).2.resolving = s.resolving :=
  keeps_resolveWith (R := SameStack) (keeps_resolveDie levels) y s

theorem Asks.resolving (hr : Resolver.Keeps SameStack resolve) (h : i.Asks resolve d s y t) :
    t.resolving = s.resolving := by
  cases h with
  | target => rfl
  | @member id before after m complete t u _ _ _ hrecord hbefore =>
    have hsame : SameStack s ((i.recordFor d).run.run s).2 := keeps_recordFor d s
    have hsame' : SameStack t ((addMembers resolve d.offset id before).run.run t).2 :=
      keeps_addMembers hr _ _ _ t
    rw [hrecord] at hsame
    rw [hbefore] at hsame'
    exact hsame'.trans hsame

end Importer

/-! ## Depth -/

/-- How many levels of types have been entered when the visit is made. -/
def Visit.depth (i : Importer) (v : Visit) : Nat := i.config.maxResolveDepth - v.levels

/-- As many types are being resolved as levels were entered, and each of them once. -/
structure Session.AtDepth (i : Importer) (depth : Nat) (s : Session) : Prop where
  length : s.resolving.length = depth
  nodup : s.resolving.Nodup
  bounded : depth ≤ i.config.maxResolveDepth + 1

/-- What a visit comes to.  Only in the last case a handler runs. -/
inductive Visit.Course (i : Importer) (v : Visit) : Outcome × Session → Prop
  | known {out : Outcome} : ¬ v.IsNew → Course i v (out, v.session)
  | tooDeep :
      v.IsNew → v.depth i = i.config.maxResolveDepth →
      Course i v ((leave v.die.offset
        (.error (.resolveDepthExceeded i.config.maxResolveDepth))).run v.begun)
  | handled {levels : Nat} {result : Except ImportError Outcome} {t : Session} :
      v.IsNew → v.depth i < i.config.maxResolveDepth → v.levels = levels + 1 →
      (i.describe (i.resolveWith (i.resolveDie levels)) v.die).run.run v.begun = (result, t) →
      t.resolving = v.begun.resolving → Course i v ((leave v.die.offset result).run t)

/-- The visit keeps to the stack. -/
structure Visit.Disciplined (i : Importer) (v : Visit) : Prop where
  levels : v.levels ≤ i.config.maxResolveDepth
  before : v.session.AtDepth i (v.depth i)
  within : v.IsNew → v.begun.AtDepth i (v.depth i + 1)
  course : v.Course i ((i.resolveDie v.levels v.die).run v.session)
  /-- A handler asks for a type on the level that it runs on. -/
  asks : ∀ {levels y t}, v.levels = levels + 1 →
    i.Asks (i.resolveWith (i.resolveDie levels)) v.die v.begun y t →
    t.resolving = v.begun.resolving ∧
      ((i.resolveWith (i.resolveDie levels) y).run t).2.resolving = v.begun.resolving
  /-- It depends on nothing else that a resolver does. -/
  asksOnly : ∀ {levels resolve}, v.levels = levels + 1 →
    (∀ y t, i.Asks (i.resolveWith (i.resolveDie levels)) v.die v.begun y t →
      (resolve y).run t = (i.resolveWith (i.resolveDie levels) y).run t) →
    (i.describe resolve v.die).run.run v.begun =
      (i.describe (i.resolveWith (i.resolveDie levels)) v.die).run.run v.begun
  after : ((i.resolveDie v.levels v.die).run v.session).2.resolving = v.session.resolving

/-- The levels that were entered and those that are left are as many as there may be. -/
structure Visit.Balanced (i : Importer) (v : Visit) : Prop where
  total : v.session.resolving.length + v.levels = i.config.maxResolveDepth
  nodup : v.session.resolving.Nodup

namespace Visit

theorem course_of_balanced (h : v.Balanced i) :
    v.Course i ((i.resolveDie v.levels v.die).run v.session) := by
  by_cases hnew : v.IsNew
  · have hdepth : v.depth i + v.levels = i.config.maxResolveDepth := by
      have := h.total
      unfold depth
      omega
    rw [run_resolveDie hnew.uncached hnew.notMem, StateT.run_bind]
    cases hlevels : v.levels with
    | zero => exact .tooDeep hnew (by omega)
    | succ levels =>
      have hkeeps : Attempt.Keeps SameStack
          (i.describe (i.resolveWith (i.resolveDie levels)) v.die) :=
        keeps_describe (keeps_resolveWith (keeps_resolveDie levels)) v.die
      exact .handled hnew (by omega) hlevels rfl (hkeeps v.begun)
  · obtain ⟨out, hrun⟩ : ∃ out, (i.resolveDie v.levels v.die).run v.session = (out, v.session) :=
      (run_resolveDie_known fun h => hnew ⟨h.1, h.2⟩).imp fun _ => And.left
    rw [hrun]
    exact .known hnew

theorem Balanced.disciplined (h : v.Balanced i) : v.Disciplined i where
  levels := by
    have := h.total
    omega
  before := by
    have := h.total
    refine ⟨?_, h.nodup, ?_⟩
    · unfold depth
      omega
    · unfold depth
      omega
  within hnew := by
    have := h.total
    refine ⟨?_, List.nodup_cons.mpr ⟨hnew.notMem, h.nodup⟩, ?_⟩
    · unfold depth
      change v.session.resolving.length + 1 = _
      omega
    · unfold depth
      omega
  course := course_of_balanced h
  asks hlevels hasks := by
    have hstack := hasks.resolving (keeps_resolveWith (keeps_resolveDie _))
    exact ⟨hstack, (resolving_resolveWith _ _ _).trans hstack⟩
  asksOnly _ hsame := run_describe_congr hsame
  after := resolving_resolveDie _ _ _

/-- One level further there is one type more on the stack, and one level less to go. -/
theorem Balanced.nested (h : v.Balanced i) (hnew : v.IsNew) {levels : Nat}
    (hlevels : v.levels = levels + 1) {y : UInt64} {t : Session}
    (hasks : i.Asks (i.resolveWith (i.resolveDie levels)) v.die v.begun y t) (d : Die) :
    Balanced i ⟨levels, d, t⟩ := by
  have hstack : t.resolving = v.die.offset :: v.session.resolving :=
    hasks.resolving (keeps_resolveWith (keeps_resolveDie _))
  have htotal := h.total
  constructor
  · change t.resolving.length + levels = _
    rw [hstack, List.length_cons]
    omega
  · change t.resolving.Nodup
    rw [hstack]
    exact List.nodup_cons.mpr ⟨hnew.notMem, h.nodup⟩

theorem Balanced.includes (h : v.Balanced i) (hw : v.Includes i w) : w.Balanced i := by
  induction hw with
  | refl => exact h
  | nested hnew hlevels hasks _ _ _ _ ih => exact ih (h.nested hnew hlevels hasks _)

end Visit

/-! ## Commands -/

namespace Importer

/-- The visits that a command makes while no type is being resolved. -/
inductive Begins (i : Importer) (s : Session) : Command → Visit → Prop
  | processed {x : UInt64} {d : Die} :
      s.cache.has x = false → i.info.dieAt x = .ok d → d.tag.isType = true →
      Begins i s (.process x .types) ⟨i.config.maxResolveDepth, d, s⟩
  | walked {v : Visit} : i.Starts s v → Begins i s .runTypes v
  | repaired {before after : List UInt64} {x y : UInt64} {d e : Die} {id : StructId}
      {earlier later : List MemberLayout} {m : MemberLayout} {complete : Bool} {t u : Session} :
      s.cache.pending = before ++ x :: after → ((before.forM i.repair).run s).2 = t →
      i.info.dieAt x = .ok d → structOf x t = .ok id → d.layout = .ok (earlier ++ m :: later) →
      (i.completeStruct x id earlier).run.run t = (.ok complete, u) →
      (∀ member ∈ ((u.host.structDef? id).elim [] (·.members)), member.name ≠ m.name) →
      m.typeOffset = some y → u.cache.get? y = none → i.info.dieAt y = .ok e →
      Begins i s .runSecondPass ⟨i.config.maxResolveDepth, e, u⟩

variable {s : Session}

theorem resolving_performAll (commands : List Command) (s : Session) :
    (i.performAll commands s).resolving = s.resolving :=
  keeps_performAll (R := SameStack) commands s

theorem keeps_walk (before : List DebugInfo.Slot) (earlier : List Die) :
    Step.Keeps SameStack (i.walk before earlier) := by
  refine Step.keeps_bind (Step.keeps_forM (keeps_visitUnit (keeps_visitOnce .types)) before)
    fun _ => ?_
  refine Step.keeps_bind (keeps_countUnit _ (fun _ => ⟨rfl, rfl, rfl, rfl, rfl, rfl⟩) fun _ => rfl)
    fun _ => ?_
  exact Step.keeps_forM (keeps_visitOnce .types) earlier

theorem Begins.balanced {c : Command} (hidle : s.resolving = []) (h : i.Begins s c v) :
    v.Balanced i := by
  have hbalanced {d : Die} {t : Session} (hsame : SameStack s t) :
      Visit.Balanced i ⟨i.config.maxResolveDepth, d, t⟩ := by
    have hstack : t.resolving = [] := hsame.trans hidle
    constructor
    · change t.resolving.length + i.config.maxResolveDepth = _
      rw [hstack]
      exact Nat.zero_add _
    · change t.resolving.Nodup
      rw [hstack]
      exact List.nodup_nil
  cases h with
  | processed => exact hbalanced rfl
  | walked hstarts =>
    obtain ⟨-, -, -, -, rfl, -⟩ := hstarts
    exact hbalanced (keeps_walk _ _ s)
  | @repaired before after x y d e id earlier later m complete t u _ hrepaired _ _ _ hcompleted =>
    have hsame : SameStack s ((before.forM i.repair).run s).2 := Step.keeps_forM keeps_repair _ s
    have hsame' : SameStack t ((i.completeStruct x id earlier).run.run t).2 :=
      keeps_completeStruct x id earlier t
    rw [hrepaired] at hsame
    rw [hcompleted] at hsame'
    exact hbalanced (hsame'.trans hsame)

end Importer

/-- After any commands no type is being resolved, whatever cache the session was started with, and
whatever it is told next, all of the visits in the course of that keep to the stack.  To resolve a
type leaves the stack as it was in any session. -/
theorem disciplined_performAll (i : Importer) (h : Host) (cache : OffsetCache)
    (commands : List Command) :
    (i.performAll commands (.start h cache)).resolving = [] ∧
    (∀ c v, i.Begins (i.performAll commands (.start h cache)) c v →
      v.levels = i.config.maxResolveDepth ∧ {w | v.Includes i w}.Finite ∧
      ∀ w, v.Includes i w → w.Disciplined i) ∧
    ∀ levels y s, ((i.resolveWith (i.resolveDie levels) y).run s).2.resolving = s.resolving := by
  have hidle : (i.performAll commands (.start h cache)).resolving = [] :=
    resolving_performAll commands _
  refine ⟨hidle, fun c v hbegins => ⟨?_, v.finite_includes i, fun w hw => ?_⟩,
    resolving_resolveWith⟩
  · cases hbegins with
    | processed => rfl
    | walked hstarts =>
      cases hstarts
      rfl
    | repaired => rfl
  · exact ((hbegins.balanced hidle).includes hw).disciplined

/-- Where one level is allowed, the second of two types that are made from each other is too
deep. -/
theorem disciplined_performAll_ringed :
    ∃ info v w, DebugInfo.decode ringed = .ok info ∧
      let i : Importer := ⟨info, { maxResolveDepth := 1 }⟩
      i.Begins (i.performAll [] (.start (Host.built 4 []) .empty)) (.process 12 .types) v ∧
      v.Includes i w ∧ w.IsNew ∧ w.levels = 0 ∧ w.begun.resolving = [17, 12] ∧
      w.Disciplined i := by
  have hrun : (DebugInfo.decode ringed).toOption.any (fun info =>
      (info.dieAt 12).toOption.any fun d => (info.dieAt 17).toOption.any fun e =>
        decide (d.tag = .constType ∧ d.offset = 12 ∧ e.offset = 17 ∧
          (d.reference? .type).toOption = some (some 17))) = true := by
    decide +kernel
  obtain ⟨info, hdecode, hrun⟩ := Except.of_any_toOption hrun
  obtain ⟨d, hd, hrun⟩ := Except.of_any_toOption hrun
  obtain ⟨e, he, hrun⟩ := Except.of_any_toOption hrun
  obtain ⟨htag, hoffset, hoffset', hreference⟩ := of_decide_eq_true hrun
  let i : Importer := ⟨info, { maxResolveDepth := 1 }⟩
  let v : Visit := ⟨1, d, .start (Host.built 4 []) .empty⟩
  let w : Visit := ⟨0, e, v.begun⟩
  have hbegun : v.begun.resolving = [12] := by
    change [d.offset] = [12]
    rw [hoffset]
  have hbegins : i.Begins (i.performAll [] (.start (Host.built 4 []) .empty)) (.process 12 .types)
      v := .processed rfl hd (by rw [htag]; rfl)
  have hmodifies : d.Modifies 17 := by
    refine ⟨?_, Except.eq_ok_of_toOption hreference⟩
    rw [htag]
    rfl
  have hincludes : v.Includes i w := by
    refine .nested ⟨rfl, List.not_mem_nil⟩ rfl (.target hmodifies ?_) rfl ?_ he (.refl w)
    · rw [htag]
      exact nofun
    · rw [hbegun]
      decide
  have hnew : w.IsNew := by
    refine ⟨rfl, ?_⟩
    change e.offset ∉ v.begun.resolving
    rw [hbegun, hoffset']
    decide
  refine ⟨info, v, w, hdecode, hbegins, hincludes, hnew, rfl, ?_, ?_⟩
  · change e.offset :: v.begun.resolving = _
    rw [hbegun, hoffset']
  · exact ((disciplined_performAll i (Host.built 4 []) .empty []).2.1 _ v hbegins).2.2 w hincludes

end DebugSymbols
