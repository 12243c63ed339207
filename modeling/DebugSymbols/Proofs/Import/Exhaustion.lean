import DebugSymbols.Proofs.Import.Makers
import DebugSymbols.Proofs.SecondPass

/-!
How a whole import ends.  `Exhausted` says that there is nothing left to do: every entry that is
walked over is done with, and a structure that is pending has all of its members, apart from those
whose types have no size or will never be there.  `exhausted_performAll` says that it comes to that.
-/

namespace DebugSymbols.Importer

variable {i : Importer} {scope : Scope} {σ τ : History}

/-- Going over the entries and the structures again is of no use. -/
structure Exhausted (i : Importer) (σ : History) : Prop where
  sound : i.Sound σ
  idle : σ.session.resolving = []
  attributed : i.Attributed σ
  walked : ∀ d, i.info.Walks d → σ.session.cache.has d.offset = true
  barred : ∀ {y}, i.Barred σ y → ∃ T : UInt64 → Prop, T y ∧ i.Vain σ.session.cache T
  pending : ∀ {x o}, σ.session.cache.type? x = some (o, true) → ∃ d id layout,
    d.offset = x ∧ i.Owned σ d id o layout ∧ (∀ m ∈ layout, i.Inspected σ id m) ∧
      ∃ m ∈ layout, ∃ y, m.typeOffset = some y ∧ i.Barred σ y

/-- Nothing is asked for, and nothing is repaired. -/
def quiet : Scope := ⟨fun _ => False, False⟩

/-- The last pass goes over every entry, and looks into no type. -/
theorem trace_runFrames (hi : i.info.Indexed) (h : i.Idle σ) :
    ∃ τ, τ.session = i.perform σ.session .runFrames ∧ i.Trace quiet σ τ ∧ i.Idle τ ∧
      ∀ d, i.info.Walks d → τ.session.cache.has d.offset = true := by
  have hroots : Phase.frames = .types → ∀ x, quiet.roots x := nofun
  obtain ⟨τ, htrace, hτ, hidle, hwalked⟩ :=
    trace_of_tracks h (tracks_visitUnits hi .frames hroots h)
  exact ⟨τ, hτ, htrace, hidle, hwalked⟩

/-- After all passes of a session that began without types there is nothing left to do. -/
theorem exhausted_performAll (hi : i.info.Indexed) (h : i.Idle σ) (ha : i.Attributed σ)
    (hempty : ∀ x, σ.session.cache.type? x = none) :
    ∃ τ, τ.session = i.performAll [.runTypes, .runSecondPass, .runFrames] σ.session ∧
      i.Trace anywhere σ τ ∧ i.Exhausted τ := by
  obtain ⟨μ, htypes, hμ, hidle⟩ := trace_perform hi h .runTypes
  have hexplored : i.PendingExplored μ.session :=
    Trace.pendingExplored h.sound htypes fun x o htype => by
      rw [hempty] at htype
      cases htype
  obtain ⟨ν, hν, hrepairs, hidle', -, hsurveyed, hlacks⟩ := pending_runSecondPass hi hidle hexplored
  obtain ⟨τ, hτ, hframes, hdone, hwalked⟩ := trace_runFrames hi hidle'
  -- the last pass asks for no type, so it looks into no other than the second
  have hbehind : i.Trace (retracing i μ.session) ν τ :=
    hframes.lift id fun _ _ hc => hc.weaken (fun _ => False.elim) False.elim
  have hall : i.Trace anywhere σ τ :=
    (htypes.trans (Trace.anywhere hrepairs)).trans (Trace.anywhere hframes)
  refine ⟨τ, by rw [hτ, hν, hμ]; rfl, hall, hdone.sound, hdone.idle,
    Trace.attributed h.sound ha hall,
    hwalked, fun hbarred => hbarred.vain h.sound hempty hall, fun {x o} htype => ?_⟩
  have hwaiting := (Trace.noRecord hidle.sound hidle.idle hrepairs hbehind).pending htype
  have hbegun := (Trace.noRecord hidle.sound hidle.idle .refl hrepairs).pending hwaiting
  obtain ⟨d, id, o', layout, rfl, howned, hpassed⟩ :=
    hsurveyed x (OffsetCache.mem_pending.mpr ⟨o, hbegun⟩)
  obtain ⟨d', layout', hat, -, hlayout, m, hm, y, hy, hbarred⟩ := hlacks d.offset o hwaiting
  rw [howned.at_] at hat
  cases hat
  rw [howned.reads] at hlayout
  cases hlayout
  have howned' := howned.later hidle'.sound hbehind
  obtain rfl := howned'.type.ordinal_eq ⟨true, htype⟩
  exact ⟨d, id, layout, rfl, howned', fun m hm => ((hpassed m hm).extend .refl hbehind).inspected
    hidle.sound hidle.idle, m, hm, y, hy, hbarred.later hidle'.sound hbehind⟩

end DebugSymbols.Importer
