import DebugSymbols.Proofs.Import.Invocations

/-!
Where failures come from.  A failure is reported only when a handler ends with an error, or when a
type refers to an entry that cannot be decoded (`Origin`).  As to handlers, no run of one escapes
`Invokes`: each failure on file after any commands comes from a run that it names or from such an
entry (`explains_performAll`).
-/

namespace DebugSymbols

open Importer

/-! ## Failures on file -/

namespace Session

/-- The failures that were reported, the first one first. -/
def failures (s : Session) : List (UInt64 × ImportError) :=
  s.warnings.toList.filterMap Warning.failure?

@[simp]
theorem failures_blame (s : Session) (x : UInt64) (e : ImportError) :
    (s.blame x e).failures = s.failures ++ [(x, e)] := by
  simp [failures, blame, Warning.failure?]

theorem failures_warn (s : Session) {w : Warning} (hw : w.failure? = none) :
    Session.failures { s with warnings := s.warnings.push w } = s.failures := by
  simp [failures, hw]

end Session

variable {R : Session → Session → Prop} {α β : Type} {s : Session}

/-! ## Parts of steps -/

namespace Step

variable [Calm R]

theorem keeps_bind_at {m : Step α} {f : α → Step β} (hm : R s (m.run s).2)
    (hf : R (m.run s).2 ((f (m.run s).1).run (m.run s).2).2) : R s ((m >>= f).run s).2 :=
  Calm.trans hm hf

/-- What is kept wherever an element is come to is kept on the way through the list. -/
theorem keeps_forM_at {f : α → Step PUnit} {l : List α}
    (h : ∀ before a after, l = before ++ a :: after →
      R ((before.forM f).run s).2 ((f a).run ((before.forM f).run s).2).2) :
    R s ((l.forM f).run s).2 := by
  induction l generalizing s with
  | nil => exact Calm.refl s
  | cons a rest ih =>
    have hfirst : R s ((f a).run s).2 := h [] a rest rfl
    refine Calm.trans hfirst (ih fun before b after hrest => ?_)
    exact h (a :: before) b after (by rw [hrest]; rfl)

end Step

namespace Attempt

variable [Calm R]

/-- The second of two attempts matters only where the first one succeeds. -/
theorem keeps_bind_at {m : Attempt α} {f : α → Attempt β} (hm : R s (m.run.run s).2)
    (hf : ∀ a t, m.run.run s = (.ok a, t) → R t ((f a).run.run t).2) :
    R s ((m >>= f).run.run s).2 := by
  rw [ExceptT.run_bind, StateT.run_bind]
  cases hrun : m.run.run s with
  | mk result t =>
    rw [hrun] at hm
    cases result with
    | ok a => exact Calm.trans hm (hf a t hrun)
    | error e => exact hm

theorem keeps_read_bind_at {r : Except DebugInfo.Error α} {f : α → Attempt β}
    (hf : ∀ a, r = .ok a → R s ((f a).run.run s).2) : R s ((read r >>= f).run.run s).2 := by
  cases r with
  | ok a => exact hf a rfl
  | error e => exact Calm.refl s

theorem keeps_ask_bind_at {g : Session → Except ImportError α} {f : α → Attempt β}
    (hf : ∀ a, g s = .ok a → R s ((f a).run.run s).2) : R s ((ask g >>= f).run.run s).2 := by
  rw [run_ask_bind]
  cases hg : g s with
  | ok a => exact hf a hg
  | error e => exact Calm.refl s

end Attempt

namespace Importer

variable {i : Importer} {resolve : Resolver} {d : Die} {t : Session} {x y : UInt64}

theorem run_leave_error (x : UInt64) (e : ImportError) (s : Session) :
    ((leave x (.error e)).run s).2 =
      Session.blame { s with resolving := s.resolving.tail } x e := rfl

/-- What is remembered of an entry that did not fail. -/
theorem run_leave_ok (x : UInt64) (out : Outcome) (s : Session) :
    ∃ stats, stats.diesFailed = s.stats.diesFailed ∧
      ((leave x (.ok out)).run s).2 =
        { s with stats, resolving := s.resolving.tail, cache := remember x s.cache out } := by
  cases out with
  | type o pending =>
    by_cases hopen : s.cache.isOpen x = true
    · refine ⟨{ s.stats with
        typesRegistered := s.stats.typesRegistered + 1
        structsPending := s.stats.structsPending + pending.toNat }, rfl, ?_⟩
      simp [leave, settle, hopen, Step.count, Step.updateCache, remember]
      rfl
    · refine ⟨s.stats, rfl, ?_⟩
      simp [leave, settle, hopen, Step.count, Step.updateCache, remember]
      rfl
  | useless => exact ⟨s.stats, rfl, rfl⟩
  | deferred => exact ⟨s.stats, rfl, rfl⟩

/-! ## Handlers and walks -/

/-- A handler keeps what every type that it asks for keeps where it is asked for. -/
theorem keeps_describe_at [Patient R]
    (h : ∀ y t, i.Asks resolve d s y t → R t ((resolve y).run t).2) :
    R s ((i.describe resolve d).run.run s).2 := by
  classical
  -- a resolver that does nothing where the relation would not be kept is never noticed
  let careful : Resolver := fun y t =>
    if R t ((resolve y).run t).2 then (resolve y).run t else (.missing, t)
  have hcareful : Resolver.Keeps R careful := by
    intro y t
    change R t (if R t ((resolve y).run t).2 then (resolve y).run t else (.missing, t)).2
    split
    · assumption
    · exact Calm.refl t
  have hsame : (i.describe careful d).run.run s = (i.describe resolve d).run.run s :=
    run_describe_congr fun y t hasks => if_pos (h y t hasks)
  rw [← hsame]
  exact keeps_describe hcareful d s

theorem keeps_resolveWith_at [Calm R] {visit : Die → Step Outcome}
    (hvisit : ∀ d, s.cache.get? y = none → y ∉ s.resolving → i.info.dieAt y = .ok d →
      R s ((visit d).run s).2)
    (hblame : ∀ e, i.info.dieAt y = .error e → R s (s.blame y (.debugInfo e))) :
    R s ((i.resolveWith visit y).run s).2 := by
  unfold resolveWith
  rw [StateT.run_bind, StateT.run_get, pure_bind]
  cases hget : s.cache.get? y with
  | some known => cases known <;> exact Calm.refl s
  | none =>
    by_cases hmem : y ∈ s.resolving
    · simp only [hmem, if_true]
      exact Calm.refl s
    · simp only [hmem, if_false]
      cases hat : i.info.dieAt y with
      | ok d => exact hvisit d hget hmem hat
      | error e => exact hblame e hat

/-- Adds a member unless the structure has one of that name. -/
def completeMember (i : Importer) (x : UInt64) (id : StructId) (m : MemberLayout) :
    Attempt Bool := do
  let members := ((← get).host.structDef? id).elim [] (·.members)
  if members.any (·.name = m.name) then return true
  else addMember i.resolve x id m

theorem completeStruct_cons (x : UInt64) (id : StructId) (m : MemberLayout)
    (rest : List MemberLayout) :
    i.completeStruct x id (m :: rest) = do
      let first ← i.completeMember x id m
      let others ← i.completeStruct x id rest
      return first && others := by
  simp only [completeStruct, completeMember, bind_assoc]
  refine bind_congr fun s => ?_
  split <;> rfl

theorem keeps_completeMember_at [Patient R] {id : StructId} {m : MemberLayout}
    (h : ∀ y, m.typeOffset = some y →
      (∀ member ∈ ((s.host.structDef? id).elim [] (·.members)), member.name ≠ m.name) →
      R s ((i.resolve y).run s).2) :
    R s ((i.completeMember x id m).run.run s).2 := by
  unfold completeMember
  rw [Attempt.run_get_bind]
  dsimp only
  split
  · exact Calm.refl s
  · rename_i hlacks
    unfold addMember
    cases hy : m.typeOffset with
    | none => exact Calm.refl s
    | some y =>
      refine Attempt.keeps_bind_at (m := liftM (i.resolve y)) ?_ fun r t _ =>
        keeps_addResolved x id m r t
      exact h y hy (by simpa using hlacks)

/-- The types of the members that a structure lacks are all that is resolved to complete it. -/
theorem keeps_completeStruct_at [Patient R] {id : StructId} {layout : List MemberLayout}
    (h : ∀ earlier m later y complete u, layout = earlier ++ m :: later → m.typeOffset = some y →
      (i.completeStruct x id earlier).run.run s = (.ok complete, u) →
      (∀ member ∈ ((u.host.structDef? id).elim [] (·.members)), member.name ≠ m.name) →
      R u ((i.resolve y).run u).2) :
    R s ((i.completeStruct x id layout).run.run s).2 := by
  induction layout generalizing s with
  | nil => exact Calm.refl s
  | cons m rest ih =>
    rw [completeStruct_cons]
    refine Attempt.keeps_bind_at (keeps_completeMember_at fun y hy hlacks =>
      h [] m rest y true s rfl hy rfl hlacks) fun first t hfirst => ?_
    refine Attempt.keeps_bind_at (ih fun earlier m' later y complete u hrest hy hrun hlacks => ?_)
      fun _ _ _ => Calm.refl _
    refine h (m :: earlier) m' later y (first && complete) u (by rw [hrest]; rfl) hy ?_ hlacks
    rw [completeStruct_cons, Attempt.run_bind_ok hfirst, Attempt.run_bind_ok hrun]
    rfl

/-- A walk keeps what the visits keep where entries are come to before they are done with. -/
theorem keeps_visitUnits_at [Calm R] {phase : Phase}
    (h : ∀ before slot after unit earlier d later t, i.info.units.toList = before ++ slot :: after →
      slot.content = .ok unit → unit.dies = earlier ++ d :: later →
      ((i.approach phase before earlier).run s).2 = t → t.cache.has d.offset = false →
      R t ((i.visit phase d).run t).2) :
    R s ((i.visitUnits phase).run s).2 := by
  refine Step.keeps_forM_at fun before slot after hunits => ?_
  generalize hrun : ((before.forM (i.visitUnit phase)).run s).2 = t
  unfold visitUnit
  cases hslot : slot.content with
  | error e =>
    have hskipped : Step.Keeps R (do
        Step.warn (.brokenUnit e)
        countUnit phase fun s => { s with unitsBroken := s.unitsBroken + 1 }) :=
      Step.keeps_bind (Step.keeps_warn rfl) fun _ =>
        keeps_countUnit _ (fun _ => ⟨rfl, rfl, rfl, rfl, rfl, rfl⟩) fun _ => rfl
    exact hskipped t
  | ok unit =>
    have hcounted : Step.Keeps R (countUnit phase fun s => { s with unitsOk := s.unitsOk + 1 }) :=
      keeps_countUnit _ (fun _ => ⟨rfl, rfl, rfl, rfl, rfl, rfl⟩) fun _ => rfl
    refine Step.keeps_bind_at (hcounted t) (Step.keeps_forM_at fun earlier d later hdies => ?_)
    generalize happroach : ((earlier.forM (i.visitOnce phase)).run
      ((countUnit phase fun s => { s with unitsOk := s.unitsOk + 1 }).run t).2).2 = u
    rw [run_visitOnce]
    split
    · exact Calm.refl u
    · rename_i hhas
      subst hrun
      exact h before slot after unit earlier d later u hunits hslot hdies happroach
        (by simpa using hhas)

/-! ## Origins -/

/-- Where a failure comes from: one of some runs of handlers, or an entry that a type refers to and
that cannot be decoded. -/
inductive Origin (i : Importer) (Q : Invocation → Prop) : UInt64 × ImportError → Prop
  | handler {a : Invocation} {e : ImportError} :
      Q a → a.Fails i e → Origin i Q (a.die.offset, e)
  | undecodable {x : UInt64} {e : DebugInfo.Error} :
      i.info.dieAt x = .error e → Origin i Q (x, .debugInfo e)

/-- All failures that were reported on the way have such an origin. -/
def Explains (i : Importer) (Q : Invocation → Prop) (s t : Session) : Prop :=
  ∀ p ∈ t.failures, p ∈ s.failures ∨ i.Origin Q p

variable {Q Q' : Invocation → Prop} {v : Visit} {c : Command} {p : UInt64 × ImportError}

theorem Origin.mono (h : i.Origin Q p) (hQ : ∀ a, Q a → Q' a) : i.Origin Q' p := by
  cases h with
  | handler ha hfails => exact .handler (hQ _ ha) hfails
  | undecodable hat => exact .undecodable hat

theorem Explains.of_eq (h : t.failures = s.failures) : i.Explains Q s t :=
  fun _ hp => .inl (h ▸ hp)

theorem Explains.trans {u : Session} (h : i.Explains Q s t) (h' : i.Explains Q t u) :
    i.Explains Q s u := by
  intro p hp
  rcases h' p hp with hp | hp
  · exact h p hp
  · exact .inr hp

theorem Explains.mono (h : i.Explains Q s t) (hQ : ∀ a, Q a → Q' a) : i.Explains Q' s t :=
  fun p hp => (h p hp).imp_right fun horigin => horigin.mono hQ

theorem explains_blame {e : ImportError} (h : i.Origin Q (x, e)) :
    i.Explains Q s (s.blame x e) := by
  intro p hp
  rw [Session.failures_blame, List.mem_append, List.mem_singleton] at hp
  rcases hp with hp | rfl
  · exact .inl hp
  · exact .inr h

instance : Mild (i.Explains Q) where
  refl _ := .of_eq rfl
  trans := .trans
  host _ := .of_eq rfl
  warn s _ hw := .of_eq (s.failures_warn hw)
  count _ _ _ _ := .of_eq rfl
  dismiss _ _ := .of_eq rfl
  tally _ _ _ := .of_eq rfl
  place _ _ := .of_eq rfl
  resolve _ _ := .of_eq rfl

/-! ## Types -/

/-- A visit explains what its handler does, and the failure of that if need be. -/
theorem explains_visit (hv : v.IsNew → Q (.ofType v))
    (hhandled : v.IsNew → i.Explains Q v.begun ((i.handle v.levels v.die).run v.begun).2) :
    i.Explains Q v.session ((i.resolveDie v.levels v.die).run v.session).2 := by
  by_cases hnew : v.IsNew
  · have hfails (e : ImportError) (he : ((i.handle v.levels v.die).run v.begun).1 = .error e) :
        i.Origin Q (v.die.offset, e) := .handler (hv hnew) he
    have hrest := hhandled hnew
    rw [run_resolveDie hnew.uncached hnew.notMem, StateT.run_bind]
    change i.Explains Q v.session (do
      let p ← (i.handle v.levels v.die).run v.begun
      (leave v.die.offset p.1).run p.2 : Id (Outcome × Session)).2
    generalize (i.handle v.levels v.die).run v.begun = result at hfails hrest
    obtain ⟨result, t⟩ := result
    have hbegun : i.Explains Q v.session v.begun := .of_eq rfl
    refine hbegun.trans (hrest.trans ?_)
    change i.Explains Q t ((leave v.die.offset result).run t).2
    cases result with
    | error e =>
      have hleft : i.Explains Q t { t with resolving := t.resolving.tail } := .of_eq rfl
      rw [run_leave_error]
      exact hleft.trans (explains_blame (hfails e rfl))
    | ok out =>
      obtain ⟨stats, -, hrun⟩ := run_leave_ok v.die.offset out t
      rw [hrun]
      exact .of_eq rfl
  · obtain ⟨out, hrun⟩ : ∃ out, (i.resolveDie v.levels v.die).run v.session = (out, v.session) :=
      (run_resolveDie_known fun h => hnew ⟨h.1, h.2⟩).imp fun _ => And.left
    rw [hrun]
    exact .of_eq rfl

/-- What fails in the course of a visit is a handler of one of the visits that it includes.  The
induction is on the levels, as the visits that a handler asks for have one less. -/
theorem explains_resolveDie (hQ : ∀ w, v.Includes i w → w.IsNew → Q (.ofType w)) :
    i.Explains Q v.session ((i.resolveDie v.levels v.die).run v.session).2 := by
  obtain ⟨levels, d, s⟩ := v
  induction levels generalizing d s with
  | zero => exact explains_visit (hQ _ (.refl _)) fun _ => .of_eq rfl
  | succ levels ih =>
    refine explains_visit (hQ _ (.refl _)) fun hnew => ?_
    refine keeps_describe_at fun y t hasks => ?_
    refine keeps_resolveWith_at (fun e hget hmem hat => ?_) fun e hat =>
      explains_blame (.undecodable hat)
    exact ih e t fun w hw => hQ w (.nested hnew rfl hasks hget hmem hat hw)

theorem explains_resolve
    (hQ : ∀ d, s.cache.get? y = none → i.info.dieAt y = .ok d →
      ∀ w, Visit.Includes i ⟨i.config.maxResolveDepth, d, s⟩ w → w.IsNew → Q (.ofType w)) :
    i.Explains Q s ((i.resolve y).run s).2 :=
  keeps_resolveWith_at (fun d hget _ hat => explains_resolveDie (v := ⟨_, d, s⟩) (hQ d hget hat))
    fun _ hat => explains_blame (.undecodable hat)

/-! ## Functions, variables and labels -/

theorem explains_visitLocal {frame : Frame}
    (hd : s.cache.has d.offset = false → Q (.ofLocal frame d s)) :
    i.Explains Q s ((i.visitLocal frame d).run s).2 := by
  rw [visitLocal_eq, StateT.run_bind, StateT.run_get, pure_bind]
  cases hhas : s.cache.has d.offset with
  | true => exact .of_eq rfl
  | false =>
    have hfails (e : ImportError) (he : ((i.placeVariable frame d).run.run s).1 = .error e) :
        i.Origin Q (d.offset, e) := .handler (hd hhas) he
    have hplaced : i.Explains Q s ((i.placeVariable frame d).run.run s).2 :=
      keeps_placeVariable frame d s
    simp only [Bool.false_eq_true, if_false]
    rw [StateT.run_bind]
    generalize (i.placeVariable frame d).run.run s = result at hfails hplaced
    obtain ⟨result, t⟩ := result
    refine hplaced.trans ?_
    change i.Explains Q t ((concludeLocal d result).run t).2
    cases result with
    | ok placement => exact keeps_concludeLocal_ok d placement t
    | error e =>
      let skipped : Session :=
        { t with stats := { t.stats with variablesSkipped := t.stats.variablesSkipped + 1 } }
      have hskipped : i.Explains Q t skipped := .of_eq rfl
      exact hskipped.trans (explains_blame (hfails e rfl))

theorem explains_placeLocals (htag : d.tag = .subprogram)
    (hQ : ∀ frame v t, i.Descends d s frame v t → Q (.ofLocal frame v t)) :
    i.Explains Q s ((i.placeLocals d).run.run s).2 := by
  unfold placeLocals
  refine Attempt.keeps_read_bind_at fun lowPc hlowPc => ?_
  cases lowPc with
  | none => exact .of_eq rfl
  | some lowPc =>
    dsimp only
    rw [Attempt.run_get_bind]
    cases hfunction : s.host.functionAt? lowPc with
    | none => exact .of_eq rfl
    | some function =>
      refine Attempt.keeps_read_bind_at fun locations hlocations => ?_
      refine Attempt.keeps_bind_at ?_ fun _ _ _ => .of_eq rfl
      refine Step.keeps_forM_at fun before v after hlocals => explains_visitLocal fun hhas => ?_
      exact hQ _ v _ (.mk htag hlowPc hfunction hlocations hlocals rfl hhas)

theorem explains_frameHandler {m : Attempt Bool} (hm : i.frameHandler? d = some m)
    (hQ : ∀ frame v t, i.Descends d s frame v t → Q (.ofLocal frame v t)) :
    i.Explains Q s (m.run.run s).2 := by
  unfold frameHandler? at hm
  split at hm
  · cases hm
    exact explains_placeLocals ‹_› hQ
  · cases hm
    exact keeps_placeGlobal d s
  · cases hm
    exact keeps_nameLabel d s
  · cases hm

theorem explains_visitPlaced
    (hd : ∀ m, i.frameHandler? d = some m → Q (.ofEntry d s))
    (hQ : ∀ frame v t, i.Descends d s frame v t → Q (.ofLocal frame v t)) :
    i.Explains Q s ((i.visitPlaced d).run s).2 := by
  cases hm : i.frameHandler? d with
  | none =>
    rw [visitPlaced, hm]
    exact .of_eq rfl
  | some m =>
    have hfails (e : ImportError) (he : (m.run.run s).1 = .error e) : i.Origin Q (d.offset, e) :=
      .handler (hd m hm) ⟨m, hm, he⟩
    have hhandled := explains_frameHandler hm hQ
    rw [visitPlaced_eq hm, StateT.run_bind]
    generalize m.run.run s = result at hfails hhandled
    obtain ⟨result, t⟩ := result
    refine hhandled.trans ?_
    change i.Explains Q t ((conclude d result).run t).2
    cases result with
    | ok placed => exact keeps_conclude_ok d placed t
    | error e =>
      let counted : Session :=
        { t with stats := { t.stats with diesDispatched := t.stats.diesDispatched + 1 } }
      have hcounted : i.Explains Q t counted := .of_eq rfl
      exact hcounted.trans (explains_blame (hfails e rfl))

/-! ## Commands -/

theorem explains_repair {before after : List UInt64}
    (hpending : s.cache.pending = before ++ x :: after)
    (hrepaired : ((before.forM i.repair).run s).2 = t) :
    i.Explains (i.Invokes s .runSecondPass) t ((i.repair x).run t).2 := by
  unfold repair
  refine Step.keeps_bind_at ?_ (keeps_completed x _ _)
  unfold completeAt
  refine Attempt.keeps_read_bind_at fun d hat => Attempt.keeps_ask_bind_at fun id hid => ?_
  refine Attempt.keeps_read_bind_at fun layout hlayout => ?_
  refine keeps_completeStruct_at fun earlier m later y complete v hsplit hy hrun hlacks => ?_
  subst hsplit
  refine explains_resolve fun e hget hat' w hw hnew => .ofType ?_ hw hnew
  exact .repaired hpending hrepaired hat hid hlayout hrun hlacks hy hget hat'

theorem explains_runSecondPass (s : Session) :
    i.Explains (i.Invokes s .runSecondPass) s (i.runSecondPass.run s).2 :=
  Step.keeps_forM_at fun _ _ _ hpending => explains_repair hpending rfl

theorem explains_ofTag (hQ : d.tag.isType = true → ∀ w,
      Visit.Includes i ⟨i.config.maxResolveDepth, d, s⟩ w → w.IsNew → Q (.ofType w)) :
    i.Explains Q s ((i.visit .types d).run s).2 := by
  unfold visit
  dsimp only
  split
  · rename_i htag
    exact Step.keeps_bind_at (explains_resolveDie (v := ⟨_, d, s⟩) (hQ htag)) (.of_eq rfl)
  · exact .of_eq rfl

theorem Arrives.explains (h : i.Arrives s c d t) :
    i.Explains (i.Invokes s c) t ((i.visit .frames d).run t).2 :=
  explains_visitPlaced (fun _ hm => .ofEntry h hm) fun _ _ _ hdescends => .ofLocal h hdescends

theorem explains_process (hi : ∀ x d, i.info.dieAt x = .ok d → d.offset = x) (x : UInt64)
    (phase : Phase) (s : Session) :
    i.Explains (i.Invokes s (.process x phase)) s ((i.process x phase).run.run s).2 := by
  unfold process
  rw [Attempt.run_get_bind]
  split
  · exact .of_eq rfl
  · rename_i hhas
    have hopen : s.cache.has x = false := by simpa using hhas
    refine Attempt.keeps_read_bind_at fun d hat => ?_
    change i.Explains _ s ((i.visit phase d).run s).2
    cases phase with
    | types => exact explains_ofTag fun htag w => .ofType (.processed hopen hat htag)
    | frames => exact Arrives.explains (.processed hopen hat (hi x d hat))

theorem explains_runTypes (s : Session) :
    i.Explains (i.Invokes s .runTypes) s (i.runTypes.run s).2 :=
  keeps_visitUnits_at fun _ _ _ _ _ _ _ _ hunits hslot hdies hrun hhas =>
    explains_ofTag fun htag _ => .ofType (.walked (.mk hunits hslot hdies htag hrun hhas))

theorem explains_runFrames (s : Session) :
    i.Explains (i.Invokes s .runFrames) s (i.runFrames.run s).2 :=
  keeps_visitUnits_at fun _ _ _ _ _ _ _ _ hunits hslot hdies hrun hhas =>
    Arrives.explains (.walked hunits hslot hdies hrun hhas)

/-- What fails in the course of a command is a run of a handler. -/
theorem explains_perform (hi : ∀ x d, i.info.dieAt x = .ok d → d.offset = x) (s : Session)
    (c : Command) :
    i.Explains (i.Invokes s c) s (i.perform s c) := by
  cases c with
  | process x phase => exact explains_process hi x phase s
  | runTypes => exact explains_runTypes s
  | runSecondPass => exact explains_runSecondPass s
  | runFrames => exact explains_runFrames s

theorem InvokesAmong.of_head {rest : List Command} {a : Invocation} (h : i.Invokes s c a) :
    i.InvokesAmong s (c :: rest) a := by
  have hamong : i.InvokesAmong s ([] ++ c :: rest) a := .mk h
  exact hamong

theorem InvokesAmong.of_tail {rest : List Command} {a : Invocation}
    (h : i.InvokesAmong (i.perform s c) rest a) : i.InvokesAmong s (c :: rest) a := by
  obtain @⟨before, after, c', a, hinvokes⟩ := h
  have hamong : i.InvokesAmong s ((c :: before) ++ c' :: after) a := .mk hinvokes
  exact hamong

/-- What fails in the course of commands is a run of a handler in the course of one of them. -/
theorem explains_performAll (hi : ∀ x d, i.info.dieAt x = .ok d → d.offset = x) (s : Session)
    (commands : List Command) :
    i.Explains (i.InvokesAmong s commands) s (i.performAll commands s) := by
  induction commands generalizing s with
  | nil => exact .of_eq rfl
  | cons c rest ih =>
    have hfirst : i.Explains (i.InvokesAmong s (c :: rest)) s (i.perform s c) :=
      (explains_perform hi s c).mono fun _ => .of_head
    exact hfirst.trans ((ih (i.perform s c)).mono fun _ => .of_tail)

end Importer

end DebugSymbols
