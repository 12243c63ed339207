import DebugSymbols.Proofs.Import.Passes

/-!
Sessions as their users drive them.  A session is told to do one thing after the other
(`performAll`), and whatever it is told to do is a trace.
-/

namespace DebugSymbols

/-- The sections of a program all of whose strings and numbers stand in the entries. -/
def Sections.inPlace (abbreviations entries : ByteArray) : Sections where
  entries
  abbreviations
  strings := .empty
  lineStrings := .empty
  stringOffsets := .empty
  addresses := .empty
  lineTables := .empty
  locations := .empty
  locationLists := .empty

/-- What a session can be told to do. -/
inductive Command where
  | process (offset : UInt64) (phase : Phase)
  | runTypes
  | runSecondPass
  | runFrames
deriving DecidableEq

namespace Importer

variable {i : Importer} {scope : Scope} {σ : History}

/-- The session after a command, whether that failed or not. -/
def perform (i : Importer) (s : Session) : Command → Session
  | .process offset phase => ((i.process offset phase).run.run s).2
  | .runTypes => (i.runTypes.run s).2
  | .runSecondPass => (i.runSecondPass.run s).2
  | .runFrames => (i.runFrames.run s).2

def performAll (i : Importer) (commands : List Command) (s : Session) : Session :=
  commands.foldl i.perform s

theorem performAll_append (commands later : List Command) (s : Session) :
    i.performAll (commands ++ later) s = i.performAll later (i.performAll commands s) :=
  List.foldl_append

theorem trace_of_tracks {α : Type} {m : Step α} {post : α → History → Prop} (h : i.Idle σ)
    (hm : Step.Tracks i scope σ m post) :
    ∃ τ, i.Trace scope σ τ ∧ τ.session = (m.run σ.session).2 ∧ i.Idle τ ∧
      post (m.run σ.session).1 τ := by
  obtain ⟨a, τ, hrun, htrace, hstack, hpost⟩ := hm
  refine ⟨τ, htrace, ?_, h.later htrace hstack, ?_⟩
  · rw [hrun]
  · rw [hrun]
    exact hpost

theorem trace_perform (hi : i.info.Indexed) (h : i.Idle σ) (c : Command) :
    ∃ τ, i.Trace anywhere σ τ ∧ τ.session = i.perform σ.session c ∧ i.Idle τ := by
  have drop {α : Type} {m : Step α} {post : α → History → Prop}
      (hm : Step.Tracks i anywhere σ m post) :
      ∃ τ, i.Trace anywhere σ τ ∧ τ.session = (m.run σ.session).2 ∧ i.Idle τ := by
    obtain ⟨τ, htrace, heq, hidle, -⟩ := trace_of_tracks h hm
    exact ⟨τ, htrace, heq, hidle⟩
  cases c with
  | process x phase => exact drop (tracks_process hi (fun _ => trivial) h x phase)
  | runTypes => exact drop (tracks_visitUnits hi .types (fun _ _ => trivial) h)
  | runSecondPass =>
    exact drop (tracks_runSecondPass hi trivial h fun _ _ _ _ _ _ _ _ _ _ => trivial)
  | runFrames => exact drop (tracks_visitUnits hi .frames (fun _ _ => trivial) h)

theorem trace_performAll (hi : i.info.Indexed) (h : i.Idle σ) (commands : List Command) :
    ∃ τ, i.Trace anywhere σ τ ∧ τ.session = i.performAll commands σ.session ∧ i.Idle τ := by
  induction commands generalizing σ with
  | nil => exact ⟨σ, .refl, rfl, h⟩
  | cons c rest ih =>
    obtain ⟨τ, htrace, heq, hidle⟩ := trace_perform hi h c
    obtain ⟨υ, htrace', heq', hidle'⟩ := ih hidle
    refine ⟨υ, htrace.trans htrace', ?_, hidle'⟩
    rw [heq', heq]
    rfl

/-- A session over a host that was given nothing but calls is idle when it starts. -/
theorem idle_start (pointerSize : UInt64) (calls : List Call) :
    i.Idle ⟨newSession (Host.built pointerSize calls), []⟩ :=
  ⟨sound_start (Host.coherent_built pointerSize calls) (Host.refuses_built pointerSize calls), rfl⟩

/-! ## Whole imports -/

/-- An import succeeds if there is a unit, and has gone through all of its passes then. -/
theorem run_eq_ok {s t : Session} {u : Unit} :
    i.run.run.run s = (.ok u, t) ↔
      i.info.units.isEmpty = false ∧
        t = i.performAll [.runTypes, .runSecondPass, .runFrames] s := by
  unfold run
  constructor
  · intro h
    split at h
    · cases h
    · rename_i hunits
      cases h
      exact ⟨by simpa using hunits, rfl⟩
  · rintro ⟨hunits, rfl⟩
    rw [hunits]
    rfl

theorem importSections_eq_ok {sections : Sections} {config : Config} {h h' : Host} {s : Session} :
    importSections sections config h = .ok (h', s) ↔
      ∃ info start, DebugInfo.decode sections = .ok info ∧ info.units.isEmpty = false ∧
        (Importer.mk info config).resumeSession h = .ok start ∧
        s = (Importer.mk info config).performAll [.runTypes, .runSecondPass, .runFrames] start ∧
        h' = (Importer.mk info config).finish s := by
  constructor
  · intro himport
    obtain ⟨info, hinfo, himport⟩ := Except.bind_eq_ok himport
    obtain ⟨start, hstart, himport⟩ := Except.bind_eq_ok himport
    have hdecode : DebugInfo.decode sections = .ok info := Except.mapError_eq_ok.mp hinfo
    split at himport
    · rename_i t hrun
      cases himport
      obtain ⟨hunits, hs⟩ := run_eq_ok.mp hrun
      exact ⟨info, start, hdecode, hunits, hstart, hs, rfl⟩
    · cases himport
  · rintro ⟨info, start, hdecode, hunits, hstart, hs, rfl⟩
    have hrun : (Importer.mk info config).run.run start = (.ok (), s) :=
      run_eq_ok.mpr ⟨hunits, hs⟩
    unfold importSections
    simp only [hdecode, Except.mapError, Except.bind, bind, hstart]
    rw [hrun]
    rfl

/-- A session that is resumed begins with some cache, and nothing was reported yet. -/
theorem resumeSession_eq_ok {h : Host} {s : Session} (hresume : i.resumeSession h = .ok s) :
    ∃ cache, s = .start h cache := by
  unfold resumeSession at hresume
  split at hresume
  · cases hresume
    exact ⟨_, rfl⟩
  · split at hresume
    · cases hresume
      exact ⟨_, rfl⟩
    · cases hresume

/-- What a session leaves behind has the types of its host. -/
theorem sameTypes_finish (i : Importer) (s : Session) : s.host.SameTypes (i.finish s) := by
  unfold finish
  split <;> exact ⟨rfl, rfl, rfl, rfl, rfl⟩

end Importer

end DebugSymbols
