import DebugSymbols.Proofs.Import.Origins

/-!
Failures stay where they happen.  When the handler of an entry fails, the failure is reported and
counted and the entry is not handled again, whatever else the session goes on to do
(`contains_performAll`).  So an import fails only if there are no units, too many or such that
cannot be told apart, or the cache that it should go on from is damaged, and then the database is
left as it was (`import_ends`).
-/

namespace DebugSymbols

open Importer

/-! ## Failures on file -/

namespace Session

variable {s t u : Session}

/-- Every failure was counted, and the entry is done with. -/
structure Booked (s : Session) : Prop where
  counted : s.stats.diesFailed = s.failures.length
  cached : ∀ p ∈ s.failures, s.cache.has p.1 = true

theorem booked_start (h : Host) (cache : OffsetCache) : (Session.start h cache).Booked :=
  ⟨rfl, nofun⟩

/-- Nothing is lost, and further failures are dealt with. -/
structure Files (s t : Session) : Prop where
  within : s.Within t
  failures : s.failures <+: t.failures
  booked : s.Booked → t.Booked

theorem Files.refl (s : Session) : s.Files s := ⟨.refl s, List.prefix_rfl, id⟩

theorem Files.trans (h : s.Files t) (h' : t.Files u) : s.Files u :=
  ⟨h.within.trans h'.within, h.failures.trans h'.failures, fun hs => h'.booked (h.booked hs)⟩

/-- No failure was reported. -/
theorem Within.files (h : s.Within t) (hfailures : t.failures = s.failures)
    (hfailed : t.stats.diesFailed = s.stats.diesFailed) : s.Files t where
  within := h
  failures := hfailures ▸ List.prefix_rfl
  booked hs := by
    constructor
    · rw [hfailed, hfailures]
      exact hs.counted
    · intro p hp
      rw [hfailures] at hp
      exact h.cache (hs.cached p hp)

theorem has_blame (s : Session) (x : UInt64) (e : ImportError) :
    (s.blame x e).cache.has x = true :=
  OffsetCache.has_markUseless s.cache x

theorem files_blame (s : Session) (x : UInt64) (e : ImportError) : s.Files (s.blame x e) where
  within := Tolerant.blame s x e
  failures := by simp
  booked hs := by
    constructor
    · rw [failures_blame, List.length_append, ← hs.counted]
      rfl
    · intro p hp
      rw [failures_blame, List.mem_append, List.mem_singleton] at hp
      rcases hp with hp | rfl
      · exact OffsetCache.has_markUseless_of_has x (hs.cached p hp)
      · exact has_blame s _ e

end Session

open Session

theorem files_leave (x : UInt64) (result : Except ImportError Outcome) :
    Step.Keeps Files (leave x result) := by
  intro s
  cases result with
  | error e =>
    have hleft : s.Files { s with resolving := s.resolving.tail } :=
      Within.files ⟨.refl _, id⟩ rfl rfl
    rw [run_leave_error]
    exact hleft.trans (files_blame _ x e)
  | ok out =>
    obtain ⟨stats, hfailed, hrun⟩ := run_leave_ok x out s
    rw [hrun]
    exact Within.files ⟨.refl _, has_remember out⟩ rfl hfailed

instance : Steady Files where
  refl := .refl
  trans := .trans
  host h := Within.files (Calm.host h) rfl rfl
  warn s _ hw := Within.files (Calm.warn s hw) (failures_warn s hw) rfl
  count s _ hyield hfailed := Within.files (Calm.count s hyield hfailed) rfl hfailed
  dismiss s x := Within.files (Patient.dismiss s x) rfl rfl
  blame := files_blame
  visit s x result t h := by
    have hentered : s.Files (entered s x) := Within.files ⟨.refl _, id⟩ rfl rfl
    exact (hentered.trans h).trans (files_leave x result t)
  tally s _ hfailed := Within.files (Mild.tally s hfailed) rfl hfailed
  place s x := Within.files (Mild.place s x) rfl rfl
  resolve s x := Within.files (Mild.resolve s x) rfl rfl
  enter s x := Within.files ⟨.refl _, id⟩ rfl rfl
  leave := files_leave

/-! ## Handlers that fail -/

/-- The last thing that comes of a handler that fails is that the entry is blamed for it. -/
theorem Importer.Invokes.blamed {i : Importer} {s : Session} {c : Command} {a : Invocation}
    {e : ImportError} (h : i.Invokes s c a) (hfails : a.Fails i e) :
    ∃ u : Session, a.after i = u.blame a.die.offset e := by
  cases h with
  | @ofType v w _ _ hnew =>
    have hresult : ((i.handle w.levels w.die).run w.begun).1 = .error e := hfails
    change ∃ u : Session, ((i.resolveDie w.levels w.die).run w.session).2 = _
    rw [run_resolveDie hnew.uncached hnew.notMem, StateT.run_bind]
    change ∃ u : Session, (do
      let p ← (i.handle w.levels w.die).run w.begun
      _ : Id (Outcome × Session)).2 = _
    generalize (i.handle w.levels w.die).run w.begun = result at hresult
    obtain ⟨result, t⟩ := result
    cases hresult
    exact ⟨_, run_leave_error w.die.offset e t⟩
  | @ofEntry d t m _ hm =>
    obtain ⟨m', hm', hresult⟩ := hfails
    cases hm.symm.trans hm'
    change ∃ u : Session, ((i.visitPlaced d).run t).2 = _
    rw [visitPlaced_eq hm, StateT.run_bind]
    generalize m.run.run t = result at hresult
    obtain ⟨result, u⟩ := result
    cases hresult
    exact ⟨{ u with stats := { u.stats with diesDispatched := u.stats.diesDispatched + 1 } }, rfl⟩
  | @ofLocal d v frame t u _ hdescends =>
    have hresult : ((i.placeVariable frame v).run.run u).1 = .error e := hfails
    have huncached : u.cache.has v.offset = false := hdescends.uncached
    change ∃ w : Session, ((i.visitLocal frame v).run u).2 = _
    unfold visitLocal
    rw [StateT.run_bind, StateT.run_get, pure_bind]
    simp only [huncached, Bool.false_eq_true, if_false]
    rw [StateT.run_bind]
    generalize (i.placeVariable frame v).run.run u = result at hresult
    obtain ⟨result, w⟩ := result
    cases hresult
    exact ⟨{ w with stats := { w.stats with variablesSkipped := w.stats.variablesSkipped + 1 } },
      rfl⟩

/-! ## Whole sessions -/

/-- A handler runs for an entry that did not fail before and is not done with.  If it fails, that
is reported right then and stays so to the end, and the entry is done with. -/
structure Session.Contains (t : Session) (i : Importer) (a : Invocation) : Prop where
  uncached : a.session.cache.has a.die.offset = false
  untried : ∀ e, (a.die.offset, e) ∉ a.session.failures
  filed : ∀ e, a.Fails i e → (a.die.offset, e) ∈ (a.after i).failures
  done : ∀ e, a.Fails i e → (a.after i).cache.has a.die.offset = true
  lasting : (a.after i).Within t ∧ (a.after i).failures <+: t.failures

/-- All failures are contained in the course of commands, and counted in the end. -/
theorem contains_performAll {i : Importer} {s : Session} (hidle : s.resolving = [])
    (hopen : ∀ c, s.host.refuses c = false) (hs : s.Booked) (commands : List Command) :
    (i.performAll commands s).Booked ∧
      ∀ a, i.InvokesAmong s commands a → (i.performAll commands s).Contains i a := by
  refine ⟨(keeps_performAll (R := Files) commands s).booked hs, fun a ha => ?_⟩
  obtain @⟨before, after, c, a, hinvokes⟩ := ha
  have hbefore : s.Files (i.performAll before s) := keeps_performAll before s
  have hidle' : (i.performAll before s).resolving = [] :=
    (resolving_performAll before s).trans hidle
  have hopen' : ∀ c, (i.performAll before s).host.refuses c = false := fun c =>
    (congrFun hbefore.within.host.refuses c).trans (hopen c)
  obtain ⟨hupto, hrest⟩ := hinvokes.amid (R := Files) hidle' hopen'
  have hlater : (a.after i).Files (i.performAll (before ++ c :: after) s) := by
    rw [performAll_append]
    exact hrest.trans (keeps_performAll after _)
  have hbooked : a.session.Booked := hupto.booked (hbefore.booked hs)
  constructor
  · exact hinvokes.uncached
  · intro e he
    have hcached : a.session.cache.has a.die.offset = true := hbooked.cached _ he
    rw [hinvokes.uncached] at hcached
    cases hcached
  · intro e hfails
    obtain ⟨u, hu⟩ := hinvokes.blamed hfails
    simp [hu]
  · intro e hfails
    obtain ⟨u, hu⟩ := hinvokes.blamed hfails
    rw [hu]
    exact has_blame u _ e
  · exact ⟨hlater.within, hlater.failures⟩

/-! ## Whole imports -/

/-- An import along with the database as it is afterwards, whether the import failed or not. -/
def importInto (sections : Sections) (config : Config) (h : Host) :
    Except ImportError Session × Host :=
  match DebugInfo.decode sections with
  | .error e => (.error (.debugInfo e), h)
  | .ok info =>
    let i : Importer := ⟨info, config⟩
    match i.resumeSession h with
    | .error e => (.error e, h)
    | .ok start =>
      match i.run.run.run start with
      | (.ok _, s) => (.ok s, i.finish s)
      | (.error e, s) => (.error e, s.host)

theorem importSections_eq (sections : Sections) (config : Config) (h : Host) :
    importSections sections config h =
      (importInto sections config h).1.map fun s => ((importInto sections config h).2, s) := by
  unfold importSections importInto
  cases DebugInfo.decode sections with
  | error e => rfl
  | ok info =>
    cases hresume : (Importer.mk info config).resumeSession h with
    | error e => simp [Except.mapError, bind, Except.bind, hresume, Except.map]
    | ok start =>
      simp only [Except.mapError, bind, Except.bind, hresume]
      change (match (Importer.mk info config).run.run.run start with
        | (.ok _, s) => Except.ok ((Importer.mk info config).finish s, s)
        | (.error e, _) => Except.error e) = _
      rcases (Importer.mk info config).run.run.run start with ⟨e | u, s⟩ <;> rfl

/-- What an import fails for: the units cannot be told apart, as a header is malformed or there are
too many, the cache in the database is damaged, or there is no unit. -/
inductive Fatal (sections : Sections) (config : Config) (h : Host) : ImportError → Prop
  | notIndexed {e : DebugInfo.Error} :
      DebugInfo.HeadersFrom DebugInfo.maxUnits ⟨sections.entries, 0⟩ (.error e) →
      Fatal sections config h (.debugInfo e)
  | rejected {blob : List UInt8} {e : OffsetCache.Error} :
      h.loadBlob? config.cacheKey = some blob → OffsetCache.ofBytes blob = .error e →
      Fatal sections config h (.cache e)
  | noUnit :
      DebugInfo.HeadersFrom DebugInfo.maxUnits ⟨sections.entries, 0⟩ (.ok []) →
      Fatal sections config h .noDebugInfo

/-- How an import ends. -/
inductive Ends (sections : Sections) (config : Config) (h : Host) :
    Except ImportError Session × Host → Prop
  | fatal {e : ImportError} : Fatal sections config h e → Ends sections config h (.error e, h)
  | done {info : DebugInfo} {start s : Session} :
      (∀ e, ¬ Fatal sections config h e) →
      DebugInfo.decode sections = .ok info →
      (Importer.mk info config).resumeSession h = .ok start →
      s = (Importer.mk info config).performAll [.runTypes, .runSecondPass, .runFrames] start →
      s.Booked →
      (∀ a, (Importer.mk info config).InvokesAmong start
        [.runTypes, .runSecondPass, .runFrames] a → s.Contains ⟨info, config⟩ a) →
      (∀ p ∈ s.failures, Origin ⟨info, config⟩ ((Importer.mk info config).InvokesAmong start
        [.runTypes, .runSecondPass, .runFrames]) p) →
      Ends sections config h (.ok s, (Importer.mk info config).finish s)

/-- A session is not resumed only if the cache in the database is damaged. -/
theorem Importer.resumeSession_eq_error {i : Importer} {h : Host} {e : ImportError}
    (hresume : i.resumeSession h = .error e) :
    ∃ blob e', h.loadBlob? i.config.cacheKey = some blob ∧ OffsetCache.ofBytes blob = .error e' ∧
      e = .cache e' := by
  unfold resumeSession at hresume
  split at hresume
  · cases hresume
  · rename_i blob hblob
    split at hresume
    · cases hresume
    · rename_i e' he
      cases hresume
      exact ⟨blob, e', hblob, he, rfl⟩

theorem Importer.not_rejected_of_resumeSession {i : Importer} {h : Host} {s : Session}
    (hresume : i.resumeSession h = .ok s) {blob : List UInt8} {e : OffsetCache.Error}
    (hblob : h.loadBlob? i.config.cacheKey = some blob) : OffsetCache.ofBytes blob ≠ .error e := by
  intro he
  simp [resumeSession, hblob, he] at hresume

/-- Nothing is fatal where a session starts and there are units. -/
theorem not_fatal {sections : Sections} {config : Config} {h : Host} {info : DebugInfo}
    {s : Session} (hdecode : DebugInfo.decode sections = .ok info)
    (hresume : (Importer.mk info config).resumeSession h = .ok s)
    (hunits : info.units.isEmpty = false) (e : ImportError) : ¬ Fatal sections config h e := by
  intro hfatal
  cases hfatal with
  | notIndexed hheaders =>
    have hfails := DebugInfo.decode_eq_error_iff.mpr hheaders
    rw [hdecode] at hfails
    cases hfails
  | rejected hblob he => exact not_rejected_of_resumeSession hresume hblob he
  | noUnit hheaders =>
    have hempty := (DebugInfo.isEmpty_units_iff hdecode).mpr hheaders
    rw [hunits] at hempty
    cases hempty

theorem Importer.run_noUnit {i : Importer} {s : Session} (hunits : i.info.units.isEmpty = true) :
    i.run.run.run s = (.error .noDebugInfo, s) := by
  unfold run
  rw [if_pos hunits]
  rfl

/-- An import into any database fails only if it does not come by units or the cache is damaged, and
leaves the database alone then.  Otherwise it succeeds, and all failures on the way are contained:
those of handlers, and those to decode an entry that a type refers to. -/
theorem import_ends (sections : Sections) (config : Config) (db : Database) :
    importSections sections config (.ofDatabase db) =
        (importInto sections config (.ofDatabase db)).1.map
          (fun s => ((importInto sections config (.ofDatabase db)).2, s)) ∧
      Ends sections config (.ofDatabase db) (importInto sections config (.ofDatabase db)) := by
  refine ⟨importSections_eq sections config _, ?_⟩
  unfold importInto
  cases hdecode : DebugInfo.decode sections with
  | error e => exact .fatal (.notIndexed (DebugInfo.decode_eq_error_iff.mp hdecode))
  | ok info =>
    cases hresume : (Importer.mk info config).resumeSession (.ofDatabase db) with
    | error e =>
      obtain ⟨blob, e', hblob, he, rfl⟩ := resumeSession_eq_error hresume
      simp only [hresume]
      exact .fatal (.rejected hblob he)
    | ok start =>
      simp only [hresume]
      obtain ⟨cache, rfl⟩ := resumeSession_eq_ok hresume
      cases hunits : info.units.isEmpty with
      | true =>
        rw [run_noUnit hunits]
        exact .fatal (.noUnit ((DebugInfo.isEmpty_units_iff hdecode).mp hunits))
      | false =>
        have hrun : (Importer.mk info config).run.run.run (.start (.ofDatabase db) cache) =
            (.ok (), _) := run_eq_ok.mpr ⟨hunits, rfl⟩
        rw [hrun]
        obtain ⟨hbooked, hcontains⟩ := contains_performAll (i := ⟨info, config⟩)
          (s := .start (.ofDatabase db) cache) rfl (fun _ => rfl) (booked_start _ cache)
          [.runTypes, .runSecondPass, .runFrames]
        have hexplains := explains_performAll (i := ⟨info, config⟩)
          (fun _ _ => DebugInfo.offset_of_dieAt hdecode) (.start (.ofDatabase db) cache)
          [.runTypes, .runSecondPass, .runFrames]
        exact .done (not_fatal hdecode hresume hunits) hdecode hresume rfl hbooked hcontains
          fun p hp => (hexplains p hp).resolve_left List.not_mem_nil

end DebugSymbols
