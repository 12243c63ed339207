import DebugSymbols.Proofs.Import.Commands
import DebugSymbols.Proofs.Import.Keeping

/-!
Relations that all steps keep.  A `Lenient` relation allows for visits, for changes of the cache
for the better and for any counting, so it holds between the sessions before and after every step.
One of them is that nothing is lost (`Session.Within`): what is cached stays cached, known
enumerations stay as they are, and the variables that functions have stay in front of new ones.
Main statement: `keeps_performAll`.
-/

namespace DebugSymbols

/-- Everything may be counted but failures, and the cache may change for the better. -/
class Mild (R : Session → Session → Prop) : Prop extends Patient R where
  tally : ∀ (s : Session) {stats : Stats}, stats.diesFailed = s.stats.diesFailed →
    R s { s with stats }
  place : ∀ (s : Session) x, R s { s with cache := s.cache.markPlaced x }
  resolve : ∀ (s : Session) x, R s { s with cache := s.cache.clearPending x }

/-- Everything that steps do is allowed for. -/
class Lenient (R : Session → Session → Prop) : Prop extends Nesting R, Mild R

namespace Importer

variable {R : Session → Session → Prop} {i : Importer}

open Attempt

/-! ## What does no harm -/

section

variable [Mild R]

theorem keeps_tally {f : Stats → Stats} (hf : ∀ a : Stats, (f a).diesFailed = a.diesFailed) :
    Step.Keeps R (Step.count f) :=
  fun s => Mild.tally s (hf s.stats)

theorem keeps_markPlaced (x : UInt64) : Step.Keeps R (Step.updateCache (·.markPlaced x)) :=
  fun s => Mild.place s x

theorem keeps_clearPending (x : UInt64) : Step.Keeps R (Step.updateCache (·.clearPending x)) :=
  fun s => Mild.resolve s x

/-- What follows when a structure was gone through. -/
theorem keeps_completed (x : UInt64) (result : Except ImportError Bool) :
    Step.Keeps R (match result with
      | .ok true => do
        Step.updateCache (·.clearPending x)
        Step.count fun s => { s with structsRepaired := s.structsRepaired + 1 }
      | .ok false => Step.warn (.stillPending x)
      | .error e => Step.warn (.repairFailed x e)) := by
  rcases result with e | complete
  · exact Step.keeps_warn rfl
  · cases complete with
    | false => exact Step.keeps_warn rfl
    | true => exact Step.keeps_bind (keeps_clearPending x) fun _ => keeps_tally fun _ => rfl

theorem keeps_skip (d : Die) : Step.Keeps R (visitLocal.skip d) :=
  Step.keeps_bind (keeps_tally fun _ => rfl) fun _ => Step.keeps_markUseless _

/-- What follows when a variable was gone through. -/
def concludeLocal (d : Die) (result : Except ImportError Placement) : Step Unit := do
  match result with
  | .ok .placed =>
    Step.count fun s => { s with variablesPlaced := s.variablesPlaced + 1 }
    Step.updateCache (·.markPlaced d.offset)
  | .ok .skipped => visitLocal.skip d
  | .ok .static => return
  | .error e =>
    Step.fail d.offset e
    visitLocal.skip d

theorem visitLocal_eq (frame : Frame) (d : Die) :
    i.visitLocal frame d = get >>= fun s =>
      if s.cache.has d.offset = true then pure () else
        (i.placeVariable frame d).run >>= concludeLocal d := rfl

theorem keeps_concludeLocal_ok (d : Die) (placement : Placement) :
    Step.Keeps R (concludeLocal d (.ok placement)) := by
  cases placement with
  | placed => exact Step.keeps_bind (keeps_tally fun _ => rfl) fun _ => keeps_markPlaced _
  | skipped => exact keeps_skip d
  | static => exact Step.keeps_pure _

theorem keeps_nameGlobal (address : UInt64) (name : String) :
    Attempt.Keeps R (nameGlobal address name) := by
  refine keeps_look fun s => ?_
  split
  · rename_i h hset
    exact Calm.trans (Calm.host (Host.within_setName? hset))
      (Mild.tally { s with host := h } rfl)
  · exact Calm.refl s

theorem keeps_placeGlobal (d : Die) : Attempt.Keeps R (i.placeGlobal d) := by
  refine keeps_bind (keeps_read _) fun declared => ?_
  split
  · exact keeps_pure _
  · refine keeps_bind (keeps_read _) fun locations => ?_
    split
    · split
      · refine keeps_bind (keeps_read _) fun declaration => ?_
        refine keeps_bind (keeps_read _) fun name => ?_
        split
        · rename_i address _ _ name
          refine keeps_bind (keeps_knownType _) fun sized => ?_
          split
          · rename_i type size
            refine keeps_look fun s => ?_
            exact Calm.trans (Calm.host (s.host.within_applyType address type size))
              (keeps_nameGlobal address name _)
          · exact keeps_nameGlobal _ _
        · exact keeps_pure _
      · exact keeps_pure _
    · exact keeps_pure _

theorem keeps_nameLabel (d : Die) : Attempt.Keeps R (i.nameLabel d) := by
  refine keeps_bind (keeps_read _) fun parts => ?_
  split
  · refine keeps_look fun s => ?_
    split
    · rename_i h hset
      exact Calm.trans (Calm.host (Host.within_setName? hset))
        (Mild.tally { s with host := h } rfl)
    · exact Calm.refl s
  · exact keeps_pure _

/-- What follows when something was done with an entry. -/
def conclude (d : Die) (result : Except ImportError Bool) : Step Bool := do
  Step.count fun s => { s with diesDispatched := s.diesDispatched + 1 }
  match result with
  | .ok true => Step.updateCache (·.markPlaced d.offset)
  | .ok false => Step.updateCache (·.markUseless d.offset)
  | .error e =>
    Step.fail d.offset e
    Step.updateCache (·.markUseless d.offset)
  return true

theorem visitPlaced_eq {d : Die} {m : Attempt Bool} (h : i.frameHandler? d = some m) :
    i.visitPlaced d = m.run >>= conclude d := by
  rw [visitPlaced, h]
  rfl

theorem keeps_conclude_ok (d : Die) (placed : Bool) :
    Step.Keeps R (conclude d (.ok placed)) := by
  refine Step.keeps_bind (keeps_tally fun _ => rfl) fun _ => ?_
  cases placed with
  | true => exact Step.keeps_bind (keeps_markPlaced _) fun _ => Step.keeps_pure _
  | false => exact Step.keeps_bind (Step.keeps_markUseless _) fun _ => Step.keeps_pure _

end

variable [Lenient R]

/-! ## Repairs -/

theorem keeps_repair (x : UInt64) : Step.Keeps R (i.repair x) :=
  Step.keeps_bind (keeps_completeAt x) (keeps_completed x)

theorem keeps_runSecondPass (i : Importer) : Step.Keeps R i.runSecondPass :=
  Step.keeps_get_bind fun _ => Step.keeps_forM keeps_repair _

/-! ## Variables and labels -/

theorem keeps_concludeLocal (d : Die) (result : Except ImportError Placement) :
    Step.Keeps R (concludeLocal d result) := by
  rcases result with e | placement
  · exact keeps_fail_skip d e
  · exact keeps_concludeLocal_ok d placement

theorem keeps_visitLocal (frame : Frame) (d : Die) : Step.Keeps R (i.visitLocal frame d) := by
  rw [visitLocal_eq]
  refine Step.keeps_get_bind fun s => ?_
  split
  · exact Step.keeps_pure _
  · exact Step.keeps_bind (keeps_placeVariable frame d) (keeps_concludeLocal d)

theorem keeps_of_frameHandler? {d : Die} {m : Attempt Bool} (h : i.frameHandler? d = some m) :
    Attempt.Keeps R m := by
  unfold frameHandler? at h
  split at h
  · cases h
    exact keeps_placeLocals keeps_visitLocal d
  · cases h
    exact keeps_placeGlobal d
  · cases h
    exact keeps_nameLabel d
  · cases h

theorem keeps_conclude (d : Die) (result : Except ImportError Bool) :
    Step.Keeps R (conclude d result) := by
  rcases result with e | placed
  · refine Step.keeps_bind (keeps_tally fun _ => rfl) fun _ => ?_
    exact Step.keeps_fail_bind (Step.keeps_pure _) _ _
  · exact keeps_conclude_ok d placed

theorem keeps_visitPlaced (d : Die) : Step.Keeps R (i.visitPlaced d) := by
  cases hm : i.frameHandler? d with
  | none =>
    rw [visitPlaced, hm]
    exact Step.keeps_bind (Step.keeps_markUseless _) fun _ => Step.keeps_pure _
  | some m =>
    rw [visitPlaced_eq hm]
    exact Step.keeps_bind (keeps_of_frameHandler? hm) (keeps_conclude d)

/-! ## Visits -/

theorem keeps_visit (phase : Phase) (d : Die) : Step.Keeps R (i.visit phase d) := by
  cases phase with
  | types =>
    unfold visit
    dsimp only
    split
    · exact Step.keeps_bind (keeps_resolveDie _ d) fun _ => Step.keeps_pure _
    · exact Step.keeps_pure _
  | frames => exact keeps_visitPlaced d

theorem run_visitOnce (phase : Phase) (d : Die) (s : Session) :
    ((i.visitOnce phase d).run s).2 =
      if s.cache.has d.offset then s else ((i.visit phase d).run s).2 := by
  unfold visitOnce
  rw [StateT.run_bind]
  change ((if !s.cache.has d.offset then _ else _ : Step Unit).run s).2 = _
  cases s.cache.has d.offset <;> rfl

theorem keeps_visitOnce (phase : Phase) (d : Die) : Step.Keeps R (i.visitOnce phase d) := by
  refine Step.keeps_get_bind fun s => ?_
  split
  · exact Step.keeps_bind (keeps_visit phase d) fun _ => Step.keeps_pure _
  · exact Step.keeps_pure _

theorem keeps_process (i : Importer) (x : UInt64) (phase : Phase) :
    Attempt.Keeps R (i.process x phase) := by
  refine keeps_get_bind fun s => ?_
  split
  · exact keeps_pure _
  · exact keeps_bind (keeps_read _) fun d => keeps_lift (keeps_visit phase d)

theorem keeps_perform (s : Session) (c : Command) :
    R s (i.perform s c) := by
  cases c with
  | process x phase => exact keeps_process i x phase s
  | runTypes => exact keeps_visitUnits (keeps_visitOnce .types) s
  | runSecondPass => exact keeps_runSecondPass i s
  | runFrames => exact keeps_visitUnits (keeps_visitOnce .frames) s

theorem keeps_performAll (commands : List Command)
    (s : Session) : R s (i.performAll commands s) := by
  induction commands generalizing s with
  | nil => exact Calm.refl s
  | cons c rest ih => exact Calm.trans (keeps_perform s c) (ih _)

end Importer

/-! ## What is not lost -/

namespace OffsetCache

variable {c : OffsetCache} {x : UInt64}

theorem has_markUseless_of_has (y : UInt64) (h : c.has x = true) :
    (c.markUseless y).has x = true := Importer.has_remember .useless h

theorem has_markPlaced_of_has (y : UInt64) (h : c.has x = true) :
    (c.markPlaced y).has x = true := by
  unfold has at h ⊢
  rw [get?_markPlaced]
  split
  · rfl
  · exact h

theorem has_clearPending_of_has (y : UInt64) (h : c.has x = true) :
    (c.clearPending y).has x = true := by
  unfold has at h ⊢
  rw [get?_clearPending]
  split
  · rename_i heq
    rw [heq] at h
    split
    · rfl
    · exact h
  · exact h

end OffsetCache

namespace Session

/-- The second session still has what the first one has. -/
structure Within (s s' : Session) : Prop where
  host : s.host.Within s'.host
  cache : ∀ {x}, s.cache.has x = true → s'.cache.has x = true

theorem Within.refl (s : Session) : s.Within s := ⟨.refl _, id⟩

theorem Within.trans {s s' s'' : Session} (h : s.Within s') (h' : s'.Within s'') :
    s.Within s'' :=
  ⟨h.host.trans h'.host, fun hx => h'.cache (h.cache hx)⟩

end Session

open Importer

instance : Lenient Session.Within where
  refl := .refl
  trans := .trans
  host h := ⟨h, id⟩
  warn _ _ _ := ⟨.refl _, id⟩
  count _ _ _ _ := ⟨.refl _, id⟩
  dismiss _ x := ⟨.refl _, OffsetCache.has_markUseless_of_has x⟩
  blame _ x _ := ⟨.refl _, OffsetCache.has_markUseless_of_has x⟩
  visit _ x result t h := by
    obtain ⟨stats, warnings, hrun⟩ := run_leave x result t
    rw [hrun]
    exact ⟨h.host, fun hy => has_remember _ (h.cache hy)⟩
  tally _ _ _ := ⟨.refl _, id⟩
  place _ x := ⟨.refl _, OffsetCache.has_markPlaced_of_has x⟩
  resolve _ x := ⟨.refl _, OffsetCache.has_clearPending_of_has x⟩

end DebugSymbols
