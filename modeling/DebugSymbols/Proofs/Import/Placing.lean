import DebugSymbols.Import.Run
import DebugSymbols.Proofs.Import.Handlers

/-!
Functions, variables and labels leave types alone.  All that their handlers do is `Harmless`: it
is a trace, as long as no type is being resolved.
-/

namespace DebugSymbols

open Importer

variable {i : Importer} {scope : Scope} {σ : History} {α β : Type}

/-- The attempt makes a trace, whatever comes of it. -/
abbrev Attempt.Harmless (i : Importer) (scope : Scope) (σ : History) (m : Attempt α) :
    Prop :=
  Attempt.Tracks i scope σ m (fun _ _ => True) fun _ _ => True

namespace Importer

theorem harmless_setHost {h : Host} (hs : σ.session.host.SameTypes h) :
    Attempt.Harmless i scope σ (liftM (Step.setHost h)) :=
  Attempt.tracks_lift
    ((tracks_setHost (.grow σ hs.grows (Database.retains_of_sameTypes hs)
      (fun ht => .inl (by rwa [← Database.numberedType?_congr hs.types]))
      (.inl (Database.steady_of_sameTypes hs))) rfl).imp fun _ _ _ _ _ => trivial)

theorem harmless_count (f : Stats → Stats) :
    Attempt.Harmless i scope σ (liftM (Step.count f)) :=
  Attempt.tracks_lift ((Step.tracks_count f).imp fun _ _ _ _ _ => trivial)

theorem tracks_markPlaced {x : UInt64} (hidle : σ.session.resolving = []) :
    Step.Tracks i scope σ (Step.updateCache (·.markPlaced x)) fun _ τ =>
      τ.session.cache.has x = true :=
  Step.tracks_modify (.place σ hidle) rfl rfl (OffsetCache.has_markPlaced _ x)

theorem tracks_markUseless_idle {x : UInt64} (hidle : σ.session.resolving = []) :
    Step.Tracks i scope σ (Step.updateCache (·.markUseless x)) fun _ τ =>
      τ.session.cache.has x = true :=
  (Step.tracks_markUseless (by simp [hidle])).imp fun _ _ _ _ heq =>
    heq ▸ OffsetCache.has_markUseless _ x

/-! ## Local variables -/

theorem harmless_knownType (d : Die) : Attempt.Harmless i scope σ (knownType d) := by
  refine Attempt.tracks_read_bind (fun reference _ => ?_) fun _ _ => trivial
  split
  · exact Attempt.tracks_pure trivial
  · refine Attempt.tracks_get_bind ?_
    split
    · exact Attempt.tracks_pure trivial
    · split
      · exact Attempt.tracks_pure trivial
      · exact Attempt.tracks_bind (Attempt.tracks_lift (Step.tracks_warn _))
          fun _ _ _ _ _ => Attempt.tracks_pure trivial
      · exact Attempt.tracks_throw trivial

theorem harmless_holdInRegister (frame : Frame) (name : String) (range : Option AddressRange)
    (number : UInt16) : Attempt.Harmless i scope σ (i.holdInRegister frame name range number) := by
  unfold holdInRegister
  split
  · refine Attempt.tracks_get_bind ?_
    split
    · rename_i h hadd
      exact Attempt.tracks_bind (harmless_setHost (Host.sameTypes_addRegisterVariable? hadd))
        fun _ _ _ _ _ => Attempt.tracks_pure trivial
    · exact Attempt.tracks_pure trivial
  · exact Attempt.tracks_pure trivial

theorem harmless_putOnStack (frame : Frame) (d : Die) (name : String) (offset : Int64) :
    Attempt.Harmless i scope σ (putOnStack frame d name offset) := by
  refine Attempt.tracks_get_bind ?_
  split
  · exact Attempt.tracks_pure trivial
  · refine Attempt.tracks_bind (harmless_knownType d) fun sized τ _ _ _ => ?_
    refine Attempt.tracks_get_bind ?_
    split
    · rename_i h hadd
      exact Attempt.tracks_bind (harmless_setHost (Host.sameTypes_addStackVariable? hadd))
        fun _ _ _ _ _ => Attempt.tracks_pure trivial
    · exact Attempt.tracks_pure trivial

theorem harmless_placeAt (frame : Frame) (d : Die) (name : String) (range : Option AddressRange)
    (atom : LocationAtom) :
    Attempt.Harmless i scope σ (i.placeAt frame d name range atom) := by
  unfold placeAt
  split
  · exact harmless_holdInRegister frame name range _
  · split
    · exact harmless_putOnStack frame d name _
    · exact Attempt.tracks_pure trivial
  · split
    · exact harmless_putOnStack frame d name _
    · exact Attempt.tracks_pure trivial
  · exact Attempt.tracks_pure trivial

theorem harmless_placeAll (frame : Frame) (d : Die) (name : String) (locations : List Location)
    (placed : Bool) : Attempt.Harmless i scope σ (i.placeAll frame d name placed locations) := by
  induction locations generalizing placed σ with
  | nil =>
    unfold placeAll
    split
    · exact Attempt.tracks_pure trivial
    · exact Attempt.tracks_pure trivial
  | cons l rest ih =>
    unfold placeAll
    split
    · exact ih placed
    · exact Attempt.tracks_pure trivial
    · exact Attempt.tracks_bind (harmless_placeAt frame d name l.range _)
        fun done τ _ _ _ => ih (placed || done)

theorem harmless_placeVariable (frame : Frame) (d : Die) :
    Attempt.Harmless i scope σ (i.placeVariable frame d) := by
  refine Attempt.tracks_read_bind (fun name _ => ?_) fun _ _ => trivial
  split
  · refine Attempt.tracks_read_bind (fun locations _ => ?_) fun _ _ => trivial
    split
    · exact harmless_placeAll frame d _ _ _
    · exact Attempt.tracks_pure trivial
  · exact Attempt.tracks_pure trivial

theorem tracks_skip (d : Die) (hidle : σ.session.resolving = []) :
    Step.Tracks i scope σ (visitLocal.skip d) fun _ _ => True :=
  Step.tracks_bind (Step.tracks_count _) fun _ _ _ hstack _ =>
    (tracks_markUseless_idle (hstack.trans hidle)).imp fun _ _ _ _ _ => trivial

theorem tracks_visitLocal (frame : Frame) (d : Die) (hidle : σ.session.resolving = []) :
    Step.Tracks i scope σ (i.visitLocal frame d) fun _ _ => True := by
  refine Step.tracks_get_bind ?_
  split
  · exact Step.tracks_pure trivial
  · refine Step.tracks_bind (harmless_placeVariable frame d) fun placement τ _ hstack _ => ?_
    have hidle' := hstack.trans hidle
    split
    · exact Step.tracks_bind (Step.tracks_count _) fun _ _ _ hstack' _ =>
        (tracks_markPlaced (hstack'.trans hidle')).imp fun _ _ _ _ _ => trivial
    · exact tracks_skip d hidle'
    · exact Step.tracks_pure trivial
    · exact Step.tracks_bind (Step.tracks_fail _ _) fun _ _ _ hstack' _ =>
        tracks_skip d (hstack'.trans hidle')

/-! ## Functions, variables of the program and labels -/

theorem harmless_placeLocals (d : Die) (hidle : σ.session.resolving = []) :
    Attempt.Harmless i scope σ (i.placeLocals d) := by
  refine Attempt.tracks_read_bind (fun lowPc _ => ?_) fun _ _ => trivial
  split
  · refine Attempt.tracks_get_bind ?_
    split
    · refine Attempt.tracks_read_bind (fun locations _ => ?_) fun _ _ => trivial
      exact Attempt.tracks_bind (Attempt.tracks_lift (Step.tracks_forM fun c _ τ _ hstack =>
        tracks_visitLocal _ c (hstack.trans hidle))) fun _ _ _ _ _ => Attempt.tracks_pure trivial
    · exact Attempt.tracks_pure trivial
  · exact Attempt.tracks_pure trivial

theorem sameTypes_applyType (h : Host) (address : UInt64) (type : TypeLink) (size : UInt64) :
    h.SameTypes (h.applyType address type size) := ⟨rfl, rfl, rfl, rfl, rfl⟩

theorem harmless_nameGlobal (address : UInt64) (name : String) :
    Attempt.Harmless i scope σ (nameGlobal address name) := by
  refine Attempt.tracks_get_bind ?_
  split
  · rename_i h hset
    refine Attempt.tracks_bind (harmless_setHost (Host.sameTypes_setName? hset)) ?_
    intro _ τ _ _ _
    exact Attempt.tracks_bind (harmless_count _) fun _ _ _ _ _ => Attempt.tracks_pure trivial
  · exact Attempt.tracks_pure trivial

theorem harmless_placeGlobal (d : Die) : Attempt.Harmless i scope σ (i.placeGlobal d) := by
  refine Attempt.tracks_read_bind (fun declaration _ => ?_) fun _ _ => trivial
  split
  · exact Attempt.tracks_pure trivial
  · refine Attempt.tracks_read_bind (fun locations _ => ?_) fun _ _ => trivial
    split
    · split
      · refine Attempt.tracks_read_bind (fun declaration _ => ?_) fun _ _ => trivial
        refine Attempt.tracks_read_bind (fun name _ => ?_) fun _ _ => trivial
        split
        · refine Attempt.tracks_bind (harmless_knownType _) fun known τ _ _ _ => ?_
          split
          · refine Attempt.tracks_get_bind ?_
            refine Attempt.tracks_bind (harmless_setHost (sameTypes_applyType _ _ _ _)) ?_
            exact fun _ υ _ _ _ => harmless_nameGlobal _ _
          · exact harmless_nameGlobal _ _
        · exact Attempt.tracks_pure trivial
      · exact Attempt.tracks_pure trivial
    · exact Attempt.tracks_pure trivial

theorem harmless_nameLabel (d : Die) : Attempt.Harmless i scope σ (i.nameLabel d) := by
  refine Attempt.tracks_read_bind (fun parts _ => ?_) fun _ _ => trivial
  split
  · refine Attempt.tracks_get_bind ?_
    split
    · rename_i h hset
      refine Attempt.tracks_bind (harmless_setHost (Host.sameTypes_setName? hset)) ?_
      intro _ τ _ _ _
      exact Attempt.tracks_bind (harmless_count _) fun _ _ _ _ _ => Attempt.tracks_pure trivial
    · exact Attempt.tracks_pure trivial
  · exact Attempt.tracks_pure trivial

/-- Whatever becomes of an entry, it is done with. -/
theorem tracks_visitPlaced (d : Die) (hidle : σ.session.resolving = []) :
    Step.Tracks i scope σ (i.visitPlaced d) fun _ τ => τ.session.cache.has d.offset = true := by
  unfold visitPlaced
  split
  · exact Step.tracks_bind (tracks_markUseless_idle hidle)
      fun _ _ _ _ hhas => Step.tracks_pure hhas
  · rename_i handler hhandler
    have harmless : Attempt.Harmless i scope σ handler := by
      unfold frameHandler? at hhandler
      split at hhandler
      · cases hhandler
        exact harmless_placeLocals d hidle
      · cases hhandler
        exact harmless_placeGlobal d
      · cases hhandler
        exact harmless_nameLabel d
      · cases hhandler
    refine Step.tracks_bind harmless fun result τ _ hstack _ => ?_
    refine Step.tracks_bind (Step.tracks_count _) fun _ υ _ hstack' _ => ?_
    have hidle' := (hstack'.trans hstack).trans hidle
    split
    · exact Step.tracks_bind (tracks_markPlaced hidle')
        fun _ _ _ _ hhas => Step.tracks_pure hhas
    · exact Step.tracks_bind (tracks_markUseless_idle hidle')
        fun _ _ _ _ hhas => Step.tracks_pure hhas
    · refine Step.tracks_bind (Step.tracks_fail _ _) fun _ _ _ hstack'' _ => ?_
      exact Step.tracks_bind (tracks_markUseless_idle (hstack''.trans hidle'))
        fun _ _ _ _ hhas => Step.tracks_pure hhas

end Importer

end DebugSymbols
