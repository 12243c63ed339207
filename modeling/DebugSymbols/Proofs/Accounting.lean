import DebugSymbols.Proofs.Import.Commands
import DebugSymbols.Proofs.Import.Keeping

/-!
The books of a session.  What a session has counted is what its cache holds: the types, the
structures that are still pending, and all that was placed (`Session.Accounted`).  Whatever a new
session is told to do, its books are right in the end (`accounted_performAll`).
-/

namespace DebugSymbols

open Importer

namespace Session

/-- The statistics agree with the cache. -/
structure Accounted (s : Session) : Prop where
  types : s.stats.typesRegistered = s.cache.tally Classification.isType
  repaired : s.stats.structsRepaired ≤ s.stats.structsPending
  pending : s.stats.structsPending - s.stats.structsRepaired = s.cache.pending.length
  placed : s.stats.variablesPlaced + s.stats.globalsPlaced + s.stats.labelsNamed =
    s.cache.tally Classification.isPlaced

variable {s t u : Session}

/-- Nothing was entered in the books. -/
structure SameBooks (s t : Session) : Prop where
  cache : t.cache = s.cache
  yield : s.stats.SameYield t.stats

theorem Accounted.of_same (h : s.Accounted) (hsame : s.SameBooks t) : t.Accounted := by
  obtain ⟨hcache, htypes, hpending, hrepaired, hlocals, hglobals, hlabels⟩ := hsame
  constructor
  · rw [htypes, hcache]
    exact h.types
  · rw [hrepaired, hpending]
    exact h.repaired
  · rw [hrepaired, hpending, hcache]
    exact h.pending
  · rw [hlocals, hglobals, hlabels, hcache]
    exact h.placed

theorem Accounted.markUseless (h : s.Accounted) (x : UInt64) :
    Accounted { s with cache := s.cache.markUseless x } := by
  constructor
  · rw [OffsetCache.tally_markUseless rfl]
    exact h.types
  · exact h.repaired
  · rw [OffsetCache.length_pending, OffsetCache.tally_markUseless rfl, ← OffsetCache.length_pending]
    exact h.pending
  · rw [OffsetCache.tally_markUseless rfl]
    exact h.placed

/-- A type is entered where there was none. -/
theorem Accounted.markType (h : s.Accounted) {x : UInt64} (hopen : s.cache.isOpen x = true)
    (o : Ordinal) (pending : Bool) :
    Accounted { s with
      stats := { s.stats with
        typesRegistered := s.stats.typesRegistered + 1
        structsPending := s.stats.structsPending + pending.toNat }
      cache := s.cache.markType x o pending } := by
  have hpending := h.pending
  have hrepaired := h.repaired
  rw [OffsetCache.length_pending] at hpending
  constructor
  · rw [OffsetCache.tally_markType hopen rfl, ← h.types]
    rfl
  · dsimp only
    omega
  · rw [OffsetCache.length_pending, OffsetCache.tally_markType hopen rfl]
    dsimp only [Classification.isPending]
    omega
  · rw [OffsetCache.tally_markType hopen rfl, ← h.placed]
    rfl

/-- One more thing was counted as placed, and the cache does not know it yet. -/
structure Credits (s t : Session) : Prop where
  cache : t.cache = s.cache
  types : t.stats.typesRegistered = s.stats.typesRegistered
  pending : t.stats.structsPending = s.stats.structsPending
  repaired : t.stats.structsRepaired = s.stats.structsRepaired
  placed : t.stats.variablesPlaced + t.stats.globalsPlaced + t.stats.labelsNamed =
    s.stats.variablesPlaced + s.stats.globalsPlaced + s.stats.labelsNamed + 1

theorem SameBooks.credits (h : s.SameBooks t) (hc : t.Credits u) : s.Credits u where
  cache := hc.cache.trans h.cache
  types := hc.types.trans h.yield.types
  pending := hc.pending.trans h.yield.pending
  repaired := hc.repaired.trans h.yield.repaired
  placed := by
    have hplaced := hc.placed
    rwa [h.yield.locals, h.yield.globals, h.yield.labels] at hplaced

/-- What was counted as placed is entered where there was nothing. -/
theorem Accounted.markPlaced (h : s.Accounted) (hc : s.Credits t) {x : UInt64}
    (hopen : s.cache.isOpen x = true) :
    Accounted { t with cache := t.cache.markPlaced x } := by
  rw [hc.cache]
  constructor
  · rw [OffsetCache.tally_markPlaced hopen rfl]
    exact hc.types.trans h.types
  · dsimp only
    rw [hc.pending, hc.repaired]
    exact h.repaired
  · rw [OffsetCache.length_pending, OffsetCache.tally_markPlaced hopen rfl,
      ← OffsetCache.length_pending]
    dsimp only
    rw [hc.pending, hc.repaired]
    exact h.pending
  · rw [OffsetCache.tally_markPlaced hopen rfl, ← h.placed]
    exact hc.placed

/-- A structure that is pending is entered as complete. -/
theorem Accounted.clearPending (h : s.Accounted) {x : UInt64}
    (hx : s.cache.isPending x = true) :
    Accounted { s with
      stats := { s.stats with structsRepaired := s.stats.structsRepaired + 1 }
      cache := s.cache.clearPending x } := by
  obtain ⟨o, ho⟩ := OffsetCache.isPending_iff.mp hx
  have hpending := h.pending
  have hclear := OffsetCache.tally_clearPending ho Classification.isPending
  rw [OffsetCache.length_pending] at hpending
  dsimp only [Classification.isPending, Bool.toNat_true, Bool.toNat_false] at hclear
  constructor
  · rw [Nat.add_right_cancel (OffsetCache.tally_clearPending ho Classification.isType)]
    exact h.types
  · dsimp only
    omega
  · rw [OffsetCache.length_pending]
    dsimp only
    omega
  · rw [Nat.add_right_cancel (OffsetCache.tally_clearPending ho Classification.isPlaced)]
    exact h.placed

/-- The books are right afterwards if they were before, and what was pending still is. -/
structure Balances (s t : Session) : Prop where
  accounted : s.Accounted → t.Accounted
  pending : ∀ {x}, s.cache.isPending x = true → t.cache.isPending x = true

theorem Balances.trans (h : s.Balances t) (h' : t.Balances u) : s.Balances u :=
  ⟨fun hs => h'.accounted (h.accounted hs), fun hx => h'.pending (h.pending hx)⟩

theorem SameBooks.balances (h : s.SameBooks t) : s.Balances t :=
  ⟨fun hs => hs.of_same h, fun hx => by rwa [h.cache]⟩

theorem balances_markUseless (s : Session) (x : UInt64) :
    s.Balances { s with cache := s.cache.markUseless x } where
  accounted h := h.markUseless x
  pending hy := by
    rw [OffsetCache.isPending, OffsetCache.type?_markUseless]
    exact hy

theorem balances_markType (s : Session) {x : UInt64} (hopen : s.cache.isOpen x = true)
    (o : Ordinal) (pending : Bool) :
    s.Balances { s with
      stats := { s.stats with
        typesRegistered := s.stats.typesRegistered + 1
        structsPending := s.stats.structsPending + pending.toNat }
      cache := s.cache.markType x o pending } where
  accounted h := h.markType hopen o pending
  pending {y} hy := by
    have hne : y ≠ x := by
      rintro rfl
      simp [OffsetCache.isPending, OffsetCache.type?_of_isOpen hopen] at hy
    rw [OffsetCache.isPending, OffsetCache.type?_markType hopen, if_neg hne]
    exact hy

theorem balances_markPlaced (hc : s.Credits t) {x : UInt64} (hopen : s.cache.isOpen x = true) :
    s.Balances { t with cache := t.cache.markPlaced x } where
  accounted h := h.markPlaced hc hopen
  pending hy := by
    rw [OffsetCache.isPending, OffsetCache.type?_markPlaced, hc.cache]
    exact hy

end Session

open Session

instance : Calm SameBooks where
  refl s := ⟨rfl, .refl s.stats⟩
  trans h h' := ⟨h'.cache.trans h.cache, h.yield.trans h'.yield⟩
  host _ := ⟨rfl, .refl _⟩
  warn _ _ _ := ⟨rfl, .refl _⟩
  count _ _ hyield _ := ⟨rfl, hyield⟩

instance : Tolerant Balances where
  refl _ := ⟨id, id⟩
  trans := .trans
  host h := (Calm.host (R := SameBooks) h).balances
  warn s _ hw := (Calm.warn (R := SameBooks) s hw).balances
  count s _ hyield hfailed := (Calm.count (R := SameBooks) s hyield hfailed).balances
  dismiss := balances_markUseless
  blame s x e := by
    have hsame : s.SameBooks { s with
        stats := { s.stats with diesFailed := s.stats.diesFailed + 1 }
        warnings := s.warnings.push (.failed x e) } := ⟨rfl, rfl, rfl, rfl, rfl, rfl, rfl⟩
    exact hsame.balances.trans (balances_markUseless _ x)

namespace Importer

variable {i : Importer}

/-! ## Types -/

theorem balances_settle (x : UInt64) (result : Except ImportError Outcome) :
    Step.Keeps Balances (settle x result) := by
  rcases result with e | ⟨o, pending⟩ | - | -
  · exact Step.keeps_fail_bind (Step.keeps_pure _) _ _
  · intro s
    unfold settle
    rw [StateT.run_bind, StateT.run_get, pure_bind]
    by_cases hopen : s.cache.isOpen x = true
    · rw [if_pos hopen]
      exact balances_markType s hopen o pending
    · rw [if_neg hopen]
      change s.Balances { s with cache := s.cache.markType x o pending }
      rw [OffsetCache.markType_of_not_isOpen hopen]
      exact Calm.refl s
  · exact Step.keeps_bind (Step.keeps_markUseless _) fun _ => Step.keeps_pure _
  · exact Step.keeps_pure _

instance : Nesting Balances where
  visit s x result t h := by
    have hentered : s.SameBooks (entered s x) := ⟨rfl, rfl, rfl, rfl, rfl, rfl, rfl⟩
    have hleft : t.SameBooks { t with resolving := t.resolving.tail } := ⟨rfl, .refl _⟩
    exact (hentered.balances.trans h).trans (hleft.balances.trans (balances_settle x result _))

/-! ## Repairs -/

/-- A pending structure is entered as complete once, and the others stay pending. -/
theorem accounted_repair {s : Session} {x : UInt64} (hx : s.cache.isPending x = true) :
    (s.Accounted → ((i.repair x).run s).2.Accounted) ∧
      ∀ y, y ≠ x → s.cache.isPending y = true →
        ((i.repair x).run s).2.cache.isPending y = true := by
  have hbalances : s.Balances ((i.completeAt x).run.run s).2 := keeps_completeAt x s
  unfold repair
  rw [StateT.run_bind]
  generalize (i.completeAt x).run.run s = result at hbalances
  obtain ⟨result, t⟩ := result
  have hkeeps {m : Step Unit} (hm : Step.Keeps Balances m) :
      (s.Accounted → (m.run t).2.Accounted) ∧
        ∀ y, y ≠ x → s.cache.isPending y = true → (m.run t).2.cache.isPending y = true := by
    have hall := hbalances.trans (hm t)
    exact ⟨hall.accounted, fun _ _ => hall.pending⟩
  rcases result with e | complete
  · exact hkeeps (Step.keeps_warn rfl)
  · cases complete with
    | false => exact hkeeps (Step.keeps_warn rfl)
    | true =>
      refine ⟨fun hs => (hbalances.accounted hs).clearPending (hbalances.pending hx),
        fun y hne hy => ?_⟩
      change (t.cache.clearPending x).isPending y = true
      rw [OffsetCache.isPending, OffsetCache.type?_clearPending, if_neg hne]
      exact hbalances.pending hy

theorem accounted_runSecondPass {s : Session} (hs : s.Accounted) :
    (i.runSecondPass.run s).2.Accounted := by
  have hall : ∀ x ∈ s.cache.pending, s.cache.isPending x = true := fun x hx =>
    OffsetCache.isPending_iff.mpr (OffsetCache.mem_pending.mp hx)
  have hnodup : s.cache.pending.Nodup :=
    s.cache.pending_ascending.imp fun hlt => UInt64.ne_of_lt hlt
  change ((s.cache.pending.forM i.repair).run s).2.Accounted
  -- What is still to be repaired is still pending.
  generalize s.cache.pending = l at hall hnodup
  induction l generalizing s with
  | nil => exact hs
  | cons x rest ih =>
    obtain ⟨hx, hnodup⟩ := List.nodup_cons.mp hnodup
    obtain ⟨haccounted, hothers⟩ := accounted_repair (i := i) (hall x (by simp))
    refine ih (haccounted hs) (fun y hy => ?_) hnodup
    exact hothers y (fun heq => hx (heq ▸ hy)) (hall y (by simp [hy]))

/-! ## Variables and labels -/

theorem balances_skip (d : Die) : Step.Keeps Balances (visitLocal.skip d) :=
  Step.keeps_bind (Step.keeps_count (fun _ => ⟨rfl, rfl, rfl, rfl, rfl, rfl⟩) fun _ => rfl)
    fun _ => Step.keeps_markUseless _

theorem balances_visitLocal (frame : Frame) (d : Die) :
    Step.Keeps Balances (i.visitLocal frame d) := by
  intro s
  unfold visitLocal
  rw [StateT.run_bind, StateT.run_get, pure_bind]
  split
  · exact Calm.refl s
  · rename_i hhas
    have hsame : s.SameBooks ((i.placeVariable frame d).run.run s).2 :=
      keeps_placeVariable frame d s
    rw [StateT.run_bind]
    generalize (i.placeVariable frame d).run.run s = result at hsame
    obtain ⟨result, t⟩ := result
    have hkeeps {m : Step Unit} (hm : Step.Keeps Balances m) : s.Balances (m.run t).2 :=
      hsame.balances.trans (hm t)
    rcases result with e | placement
    · exact hkeeps (keeps_fail_skip d e)
    · cases placement with
      | placed =>
        have hcredits : t.Credits { t with
            stats := { t.stats with variablesPlaced := t.stats.variablesPlaced + 1 } } :=
          ⟨rfl, rfl, rfl, rfl, by dsimp only; omega⟩
        have hopen : s.cache.isOpen d.offset = true :=
          OffsetCache.isOpen_of_has (by simpa using hhas)
        exact balances_markPlaced (hsame.credits hcredits) hopen
      | skipped => exact hkeeps (balances_skip d)
      | static => exact hkeeps (Step.keeps_pure _)

end Importer

/-- How an attempt to place something ends.  What was placed was counted, and the cache does not
know it yet. -/
inductive Session.Earned (s : Session) : Except ImportError Bool × Session → Prop
  | placed {t : Session} : s.Credits t → Earned s (.ok true, t)
  | unplaced {t : Session} : s.Balances t → Earned s (.ok false, t)
  | failed {e : ImportError} {t : Session} : s.Balances t → Earned s (.error e, t)

theorem Session.SameBooks.earned {s t : Session} {out : Except ImportError Bool × Session}
    (h : s.SameBooks t) (he : t.Earned out) : s.Earned out := by
  cases he with
  | placed hcredits => exact .placed (h.credits hcredits)
  | unplaced hbalances => exact .unplaced (h.balances.trans hbalances)
  | failed hbalances => exact .failed (h.balances.trans hbalances)

namespace Attempt

def Earns (m : Attempt Bool) : Prop := ∀ s, Session.Earned s (m.run.run s)

theorem earns_unplaced : Earns (pure false) := fun s => .unplaced (Calm.refl s)

theorem earns_look {f : Session → Attempt Bool} (h : ∀ s, Session.Earned s ((f s).run.run s)) :
    Earns (get >>= f) := h

theorem earns_bind {α : Type} {m : Attempt α} {f : α → Attempt Bool}
    (hm : Attempt.Keeps SameBooks m) (hf : ∀ a, Earns (f a)) : Earns (m >>= f) := by
  intro s
  have hsame : s.SameBooks (m.run.run s).2 := hm s
  rw [ExceptT.run_bind, StateT.run_bind]
  generalize m.run.run s = result at hsame
  obtain ⟨result, t⟩ := result
  cases result with
  | ok a => exact hsame.earned (hf a t)
  | error e => exact .failed hsame.balances

theorem earns_read {α : Type} (x : Except DebugInfo.Error α) {f : α → Attempt Bool}
    (hf : ∀ a, Earns (f a)) : Earns (read x >>= f) :=
  earns_bind (keeps_read x) hf

/-- What is counted along the way is entered along the way. -/
theorem earns_lift {m : Step PUnit} (hm : Step.Keeps Balances m) :
    Earns (liftM m >>= fun _ => pure false) :=
  fun s => .unplaced (hm s)

end Attempt

namespace Importer

open Attempt

variable {i : Importer}

theorem earns_placeLocals (d : Die) : Earns (i.placeLocals d) := by
  refine earns_read _ fun lowPc => ?_
  split
  · refine earns_look fun s => ?_
    split
    · exact earns_read _ (fun _ => earns_lift (Step.keeps_forM (balances_visitLocal _) _)) s
    · exact earns_unplaced s
  · exact earns_unplaced

theorem earns_nameGlobal (address : UInt64) (name : String) :
    Earns (nameGlobal address name) := by
  refine earns_look fun s => ?_
  split
  · exact .placed ⟨rfl, rfl, rfl, rfl, by dsimp only; omega⟩
  · exact earns_unplaced s

theorem earns_placeGlobal (d : Die) : Earns (i.placeGlobal d) := by
  refine earns_read _ fun declared => ?_
  split
  · exact earns_unplaced
  · refine earns_read _ fun locations => ?_
    split
    · split
      · refine earns_read _ fun declaration => earns_read _ fun name => ?_
        split
        · refine earns_bind (keeps_knownType _) fun sized => ?_
          split
          · refine earns_look fun s => ?_
            have hsame (host : Host) : s.SameBooks { s with host } := ⟨rfl, .refl s.stats⟩
            exact (hsame _).earned (earns_nameGlobal _ _ _)
          · exact earns_nameGlobal _ _
        · exact earns_unplaced
      · exact earns_unplaced
    · exact earns_unplaced

theorem earns_nameLabel (d : Die) : Earns (i.nameLabel d) := by
  refine earns_read _ fun parts => ?_
  split
  · refine earns_look fun s => ?_
    split
    · exact .placed ⟨rfl, rfl, rfl, rfl, by dsimp only; omega⟩
    · exact earns_unplaced s
  · exact earns_unplaced

theorem earns_of_frameHandler? {d : Die} {m : Attempt Bool} (h : i.frameHandler? d = some m) :
    Earns m := by
  unfold frameHandler? at h
  split at h
  · cases h
    exact earns_placeLocals d
  · cases h
    exact earns_placeGlobal d
  · cases h
    exact earns_nameLabel d
  · cases h

/-- A visit to an entry that is not in the cache yet enters what its handler has placed. -/
theorem balances_visitPlaced {d : Die} {s : Session} (hhas : s.cache.has d.offset = false) :
    s.Balances ((i.visitPlaced d).run s).2 := by
  unfold visitPlaced
  split
  · exact Patient.dismiss s d.offset
  · rename_i m hm
    have hearned := earns_of_frameHandler? hm s
    rw [StateT.run_bind]
    generalize m.run.run s = result at hearned
    have hcounted (t : Session) : t.SameBooks { t with
        stats := { t.stats with diesDispatched := t.stats.diesDispatched + 1 } } :=
      ⟨rfl, rfl, rfl, rfl, rfl, rfl, rfl⟩
    cases hearned with
    | @placed t hcredits =>
      have hcredits' : s.Credits { t with
          stats := { t.stats with diesDispatched := t.stats.diesDispatched + 1 } } :=
        ⟨hcredits.cache, hcredits.types, hcredits.pending, hcredits.repaired, hcredits.placed⟩
      exact balances_markPlaced hcredits' (OffsetCache.isOpen_of_has hhas)
    | @unplaced t hbalances =>
      exact (hbalances.trans (hcounted t).balances).trans (Patient.dismiss _ d.offset)
    | @failed e t hbalances =>
      have hrest : Step.Keeps Balances (do
          Step.fail d.offset e
          Step.updateCache (·.markUseless d.offset)
          pure ()) := Step.keeps_fail_bind (Step.keeps_pure _) _ _
      exact (hbalances.trans (hcounted t).balances).trans (hrest _)

/-! ## Whole sessions -/

theorem balances_visit (phase : Phase) {d : Die} {s : Session}
    (hhas : s.cache.has d.offset = false) : s.Balances ((i.visit phase d).run s).2 := by
  cases phase with
  | types =>
    unfold visit
    dsimp only
    split
    · exact Step.keeps_bind (keeps_resolveDie _ d) (fun _ => Step.keeps_pure _) s
    · exact Calm.refl s
  | frames => exact balances_visitPlaced hhas

theorem balances_visitOnce (phase : Phase) (d : Die) :
    Step.Keeps Balances (i.visitOnce phase d) := by
  intro s
  unfold visitOnce
  rw [StateT.run_bind, StateT.run_get, pure_bind]
  split
  · rename_i hhas
    exact balances_visit phase (by simpa using hhas)
  · exact Calm.refl s

theorem balances_process {sections : Sections} (hdecode : DebugInfo.decode sections = .ok i.info)
    (x : UInt64) (phase : Phase) : Attempt.Keeps Balances (i.process x phase) := by
  intro s
  change s.Balances ((if s.cache.has x then pure false else _ : Attempt Bool).run.run s).2
  split
  · exact Calm.refl s
  · rename_i hhas
    cases hd : i.info.dieAt x with
    | error e => exact Calm.refl s
    | ok d =>
      have hoffset := DebugInfo.offset_of_dieAt hdecode hd
      exact balances_visit phase (by simpa [hoffset] using hhas)

theorem accounted_perform {sections : Sections} (hdecode : DebugInfo.decode sections = .ok i.info)
    {s : Session} (hs : s.Accounted) (c : Command) : (i.perform s c).Accounted := by
  cases c with
  | process x phase => exact (balances_process hdecode x phase s).accounted hs
  | runTypes => exact (keeps_visitUnits (balances_visitOnce .types) s).accounted hs
  | runSecondPass => exact accounted_runSecondPass hs
  | runFrames => exact (keeps_visitUnits (balances_visitOnce .frames) s).accounted hs

end Importer

/-- The statistics of a new session over any database agree with its cache, whatever it is told
to do. -/
theorem accounted_performAll {sections : Sections} {info : DebugInfo}
    (hdecode : DebugInfo.decode sections = .ok info) (config : Config) (h : Host)
    (commands : List Command) :
    ((Importer.mk info config).performAll commands (newSession h)).Accounted := by
  have hstart : (newSession h).Accounted := ⟨rfl, Nat.le_refl 0, rfl, rfl⟩
  generalize newSession h = s at hstart
  induction commands generalizing s with
  | nil => exact hstart
  | cons c rest ih => exact ih _ (accounted_perform hdecode hstart c)

/-- A structure `n` with a pointer to itself, a function `0x10` with a variable `v` on its stack, a
variable `g` at a fixed address and a label `l`. -/
def stocked : Sections := .inPlace
  ⟨#[1, 17, 1, 0, 0, 2, 19, 1, 3, 8, 0, 0, 3, 13, 0, 3, 8, 73, 19, 56, 11, 0, 0, 4, 15, 0, 73, 19,
    0, 0, 5, 52, 0, 3, 8, 2, 24, 0, 0, 6, 10, 0, 3, 8, 17, 1, 0, 0, 7, 46, 1, 17, 1, 0, 0, 0]⟩
  ⟨#[54, 0, 0, 0, 4, 0, 0, 0, 0, 0, 4, 1, 2, 110, 0, 3, 112, 0, 24, 0, 0, 0, 0, 0, 4, 12, 0, 0, 0,
    7, 16, 0, 0, 0, 5, 118, 0, 2, 117, 124, 0, 5, 103, 0, 5, 3, 0, 32, 0, 0, 6, 108, 0, 20, 0, 0,
    0, 0]⟩

/-- `n` was pending and is complete, and the variables and the label are placed. -/
theorem accounted_performAll_stocked :
    ∃ info s, DebugInfo.decode stocked = .ok info ∧
      s = (Importer.mk info {}).performAll [.runTypes, .runSecondPass, .runFrames]
        (newSession (Host.built 4 [.addFunction ⟨16, 64⟩])) ∧
      s.Accounted ∧ s.stats.typesRegistered = 2 ∧ s.stats.structsRepaired = 1 ∧
      s.cache.pending = [] ∧ s.cache.tally Classification.isPlaced = 3 := by
  have hrun : (DebugInfo.decode stocked).toOption.any (fun info =>
      let s := (Importer.mk info {}).performAll [.runTypes, .runSecondPass, .runFrames]
        (newSession (Host.built 4 [.addFunction ⟨16, 64⟩]))
      decide (s.stats.typesRegistered = 2 ∧ s.stats.structsRepaired = 1 ∧ s.cache.pending = [] ∧
        s.cache.tally Classification.isPlaced = 3)) = true := by
    decide +kernel
  obtain ⟨info, hdecode, hrun⟩ := Except.of_any_toOption hrun
  exact ⟨info, _, hdecode, rfl, accounted_performAll hdecode {} _ _, of_decide_eq_true hrun⟩

end DebugSymbols
