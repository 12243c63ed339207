import DebugSymbols.Proofs.Import.Locals
import DebugSymbols.Proofs.Traversal

/-!
What the cache says of the local variables of a function.  A variable that a visit to its function
adds to the database is marked and counted as placed, unless its placement breaks off: then it ends
up useless, although the database has it (`useless_iff_brokenOff`).
-/

namespace DebugSymbols

/-- The parameters and variables of a function. -/
def Die.locals (d : Die) : List Die :=
  d.children.filter fun c => c.tag = .formalParameter || c.tag = .variable_

namespace Importer

/-- Where the variables of a function are kept, if the host knows the function. -/
def frame? (i : Importer) (d : Die) (h : Host) : Die.Access (Option Frame) := do
  let some lowPc ← d.address? .lowPc | return none
  let some function := h.functionAt? lowPc | return none
  let locations ← d.locations? .frameBase
  return some ⟨function, FrameBase.ofLocations (locations.getD []) function i.config.machine⟩

/-- The session after some variables were visited in turn. -/
def passed (i : Importer) (frame : Frame) (locals : List Die) (s : Session) : Session :=
  ((locals.forM (i.visitLocal frame)).run s).2

variable {i : Importer} {frame : Frame} {d : Die} {s : Session}

/-- A visit to a function visits its variables in turn. -/
theorem run_placeLocals (d : Die) (s : Session) :
    (i.placeLocals d).run.run s =
      match i.frame? d s.host with
      | .ok (some frame) => (.ok false, i.passed frame d.locals s)
      | .ok none => (.ok false, s)
      | .error e => (.error (.debugInfo e), s) := by
  unfold placeLocals frame?
  rcases d.address? .lowPc with e | _ | lowPc
  · rfl
  · rfl
  · simp only [Attempt.read, pure_bind, Attempt.run_get_bind]
    cases hfunction : s.host.functionAt? lowPc with
    | none => simp only [bind, Except.bind, hfunction]; rfl
    | some function =>
      simp only [bind, Except.bind, hfunction]
      rcases d.locations? .frameBase with e | locations
      · rfl
      · rfl

theorem passed_append (before after : List Die) (s : Session) :
    i.passed frame (before ++ after) s = i.passed frame after (i.passed frame before s) := by
  unfold passed
  rw [List.forM_eq_forM, List.forM_append]
  rfl

theorem host_visitLocal (frame : Frame) (d : Die) (s : Session) :
    ((i.visitLocal frame d).run s).2.host =
      if s.cache.has d.offset then s.host else ((i.placeVariable frame d).run.run s).2.host := by
  unfold visitLocal
  rw [StateT.run_bind]
  change ((if s.cache.has d.offset then _ else _ : Step Unit).run s).2.host = _
  cases s.cache.has d.offset with
  | true => rfl
  | false =>
    rw [if_neg Bool.false_ne_true, if_neg Bool.false_ne_true, StateT.run_bind]
    generalize (i.placeVariable frame d).run.run s = result
    obtain ⟨e | placement, t⟩ := result
    · rfl
    · cases placement <;> rfl

/-- Visits to variables keep a host that refuses nothing. -/
theorem accepts_passed (frame : Frame) (locals : List Die)
    (haccepts : ∀ call, s.host.refuses call = false) :
    ∀ call, (i.passed frame locals s).host.refuses call = false := by
  refine Step.forM_keeps (P := fun s => ∀ call, s.host.refuses call = false)
    (fun d _ s haccepts call => ?_) haccepts
  rw [host_visitLocal]
  split
  · exact haccepts call
  · have htreated : i.Treated frame d s _ := treated_placeVariable haccepts
    rw [htreated.same.types.refuses]
    exact haccepts call

/-! ## Visits of their own -/

theorem run_placeGlobal_of_two_le {locations : List Location}
    (hlocations : d.locations? .location = .ok (some locations)) (hlong : 2 ≤ locations.length) :
    (i.placeGlobal d).run.run s = (.ok false, s) ∨
      ∃ e, (i.placeGlobal d).run.run s = (.error e, s) := by
  have haddress : fixedAddress? locations = none := by
    unfold fixedAddress?
    split
    · cases Nat.not_succ_le_self 1 hlong
    · rfl
  unfold placeGlobal
  rcases d.isDeclaration with e | _ | _
  · exact .inr ⟨_, rfl⟩
  · rw [hlocations]
    simp only [Attempt.read, pure_bind, haddress]
    exact .inl rfl
  · exact .inl rfl

/-- A visit of its own does not place a variable with several locations. -/
theorem useless_visitPlaced {locations : List Location}
    (htag : d.tag = .formalParameter ∨ d.tag = .variable_)
    (hlocations : d.locations? .location = .ok (some locations)) (hlong : 2 ≤ locations.length)
    (hopen : s.cache.get? d.offset = none) :
    ((i.visitPlaced d).run s).2.cache.get? d.offset = some .useless := by
  have huseless := OffsetCache.get?_markUseless_of_none hopen
  unfold visitPlaced frameHandler?
  rcases htag with htag | htag <;> rw [htag]
  · exact huseless
  · dsimp only
    rw [StateT.run_bind]
    obtain hrun | ⟨e, hrun⟩ := run_placeGlobal_of_two_le (i := i) (s := s) hlocations hlong
    · rw [hrun]
      exact huseless
    · rw [hrun]
      exact huseless

theorem final_of_some (i : Importer) {c : Classification} {later : Session}
    (h : later.cache.get? d.offset = some c) :
    ((i.visitOnce .frames d).run later).2.cache.get? d.offset = some c := by
  rw [run_visitOnce, if_pos (by rw [OffsetCache.has, h]; rfl)]
  exact h

theorem final_of_brokenOff {later : Session} (htag : d.tag = .formalParameter ∨ d.tag = .variable_)
    (hbroken : i.BrokenOff frame d s)
    (h : later.cache.get? d.offset = none ∨ later.cache.get? d.offset = some .useless) :
    ((i.visitOnce .frames d).run later).2.cache.get? d.offset = some .useless := by
  obtain hnone | huseless := h
  · obtain ⟨name, locations, -, hlocations, hbreaks⟩ := hbroken
    rw [run_visitOnce, if_neg (by rw [OffsetCache.has, hnone]; exact Bool.false_ne_true)]
    exact useless_visitPlaced htag hlocations hbreaks.two_le hnone
  · exact i.final_of_some huseless

end Importer

open Importer

/-- A visit to a function comes to its variable `c` in the session `reached` and goes on from the
session `left`.  If the placement of `c` breaks off, and only then, the function has more variables
and yet `c` is not counted and ends up useless; otherwise a variable that was added is counted and
ends up placed.  This is so for any later session in which a walk comes to `c` itself. -/
theorem useless_iff_brokenOff {i : Importer} {d c : Die} {before after : List Die} {frame : Frame}
    {s reached left later : Session} (haccepts : ∀ call, s.host.refuses call = false)
    (hframe : i.frame? d s.host = .ok (some frame)) (hlocals : d.locals = before ++ c :: after)
    (hreached : reached = i.passed frame before s) (hnew : reached.cache.has c.offset = false)
    (hleft : left = i.passed frame [c] reached)
    (hlater : later.cache.get? c.offset = left.cache.get? c.offset) :
    (i.placeLocals d).run.run s = (.ok false, i.passed frame after left) ∧
    (i.BrokenOff frame c reached ↔
      ¬ Database.SameLocals frame.function.start reached.host.database left.host.database ∧
        left.stats.variablesPlaced = reached.stats.variablesPlaced ∧
        ((i.visitOnce .frames c).run later).2.cache.get? c.offset = some .useless) ∧
    (¬ i.BrokenOff frame c reached →
      Database.SameLocals frame.function.start reached.host.database left.host.database ∨
        left.stats.variablesPlaced = reached.stats.variablesPlaced + 1 ∧
        ((i.visitOnce .frames c).run later).2.cache.get? c.offset = some .placed) := by
  have htag : c.tag = .formalParameter ∨ c.tag = .variable_ := by
    have hmem : c ∈ d.locals := by simp [hlocals]
    simpa [Die.locals] using (List.mem_filter.mp hmem).2
  have hopen : reached.cache.get? c.offset = none := by simpa [OffsetCache.has] using hnew
  have hhandled : i.Handled frame c reached left := by
    subst hreached hleft
    exact handled_visitLocal (accepts_passed frame before haccepts) hopen
  have hrun : (i.placeLocals d).run.run s = (.ok false, i.passed frame after left) := by
    rw [run_placeLocals, hframe, hlocals, hleft, hreached, ← passed_append, ← passed_append]
    rfl
  refine ⟨hrun, ?_⟩
  cases hhandled with
  | brokenOff hbroken hmore hentry hcount =>
    have hfinal := final_of_brokenOff htag hbroken (hlater ▸ hentry)
    exact ⟨iff_of_true hbroken ⟨hmore, hcount, hfinal⟩, fun hsafe => absurd hbroken hsafe⟩
  | placed hsafe hplaced hcount =>
    have hfinal := i.final_of_some (hlater.trans hplaced)
    refine ⟨iff_of_false hsafe fun h => ?_, fun _ => .inr ⟨hcount, hfinal⟩⟩
    have hsame := h.2.1
    omega
  | left hsafe hsame =>
    exact ⟨iff_of_false hsafe fun hbroken => hbroken.1 hsame, fun _ => .inl hsame⟩

/-- A unit with a function `0x10`, the variable `r` of which is in a register first and at a fixed
address after that. -/
def relocated : Sections :=
  { Sections.inPlace
      ⟨#[1, 17, 1, 0, 0, 2, 46, 1, 17, 1, 0, 0, 3, 52, 0, 3, 8, 2, 23, 0, 0, 0]⟩
      ⟨#[22, 0, 0, 0, 4, 0, 0, 0, 0, 0, 4, 1, 2, 16, 0, 0, 0, 3, 114, 0, 0, 0, 0, 0, 0, 0]⟩ with
    locations := ⟨#[16, 0, 0, 0, 20, 0, 0, 0, 1, 0, 80, 20, 0, 0, 0, 24, 0, 0, 0, 5, 0, 3, 0, 48,
      0, 0, 0, 0, 0, 0, 0, 0, 0, 0]⟩ }

/-- The register variable is there, but `r` ends up useless. -/
theorem useless_iff_brokenOff_relocated :
    ∃ info d c frame left, DebugInfo.decode relocated = .ok info ∧ info.dies[1]? = some d ∧
      (Importer.mk info {}).frame? d (Host.built 4 [.addFunction ⟨16, 64⟩]) = .ok (some frame) ∧
      d.locals = [c] ∧
      left = (Importer.mk info {}).passed frame [c]
        (newSession (Host.built 4 [.addFunction ⟨16, 64⟩])) ∧
      left.host.database.registerVariablesOf frame.function.start =
        [⟨⟨16, 20⟩, "eax", "r"⟩] ∧
      (Importer.mk info {}).BrokenOff frame c
        (newSession (Host.built 4 [.addFunction ⟨16, 64⟩])) := by
  have hrun : (DebugInfo.decode relocated).toOption.any (fun info =>
      let i := Importer.mk info {}
      let s := newSession (Host.built 4 [.addFunction ⟨16, 64⟩])
      info.dies[1]?.any fun d => (i.frame? d s.host).toOption.any fun frame? =>
        frame?.any fun frame => d.locals.length = 1 ∧ d.locals.all fun c =>
          let left := i.passed frame [c] s
          left.host.database.registerVariablesOf frame.function.start =
            [⟨⟨16, 20⟩, "eax", "r"⟩] ∧
          left.stats.variablesPlaced = s.stats.variablesPlaced ∧
          ((i.visitOnce .frames c).run left).2.cache.get? c.offset = some .useless) = true := by
    decide +kernel
  obtain ⟨info, hdecode, hrun⟩ := Except.of_any_toOption hrun
  obtain ⟨d, hd, hrun⟩ := (Option.any_eq_true _ _).mp hrun
  obtain ⟨frame?, hframe, hrun⟩ := Except.of_any_toOption hrun
  obtain ⟨frame, rfl, hrun⟩ := (Option.any_eq_true _ _).mp hrun
  obtain ⟨hlength, hall⟩ := of_decide_eq_true hrun
  obtain ⟨c, hlocals⟩ := List.length_eq_one_iff.mp hlength
  obtain ⟨hregister, hcount, huseless⟩ :=
    of_decide_eq_true (List.all_eq_true.mp hall c (by simp [hlocals]))
  refine ⟨info, d, c, frame, _, hdecode, hd, hframe, hlocals, rfl, hregister, ?_⟩
  have hmore : ¬ Database.SameLocals frame.function.start
      (newSession (Host.built 4 [.addFunction ⟨16, 64⟩])).host.database _ := fun hsame => by
    cases hsame.2.symm.trans hregister
  have hsplit : d.locals = [] ++ c :: [] := hlocals
  have hbroken := (useless_iff_brokenOff (Host.refuses_built 4 [.addFunction ⟨16, 64⟩]) hframe
    hsplit rfl rfl rfl rfl).2.1
  exact hbroken.mpr ⟨hmore, hcount, huseless⟩

end DebugSymbols
