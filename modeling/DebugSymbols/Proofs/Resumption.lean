import DebugSymbols.Proofs.CachePersistence
import DebugSymbols.Proofs.Import.Commands
import DebugSymbols.Proofs.Import.Oblivious
import DebugSymbols.Proofs.TypeGraph

/-!
An import can be interrupted.  A session that is left and resumed goes on like one that was never
left: what it knows is in the database and in the offset cache, which is restored as it was, and
nothing looks at what was counted before (`Step.Oblivious`).
-/

namespace DebugSymbols

open Importer

/-! ## The cache of a session -/

namespace Importer

variable {i : Importer} {scope : Scope} {σ τ : History}

theorem consistent_remember {c : OffsetCache} (h : c.Consistent) (x : UInt64) (out : Outcome) :
    (remember x c out).Consistent := by
  cases out with
  | type o pending => exact h.markType x o pending
  | useless => exact h.markUseless x
  | deferred => exact h

theorem Change.consistent (hc : i.Change scope σ τ) (h : σ.session.cache.Consistent) :
    τ.session.cache.Consistent := by
  cases hc with
  | note | grow | create | attach | enter => exact h
  | dismiss => exact h.markUseless _
  | place => exact h.markPlaced _
  | leave => exact consistent_remember h _ _
  | clear => exact h.clearPending _

theorem Trace.consistent (ht : i.Trace scope σ τ) (h : σ.session.cache.Consistent) :
    τ.session.cache.Consistent := by
  induction ht with
  | refl => exact h
  | tail _ hc ih => exact hc.consistent ih

/-- The ordinals in the cache belong to types of the database, now and later. -/
theorem Sound.narrow (hs : i.Sound σ) {s : Session} (he : σ.session.Extends s)
    (hsize : s.host.database.types.size < UInt32.size) : σ.session.cache.Narrow := by
  intro x o pending hx
  obtain ⟨d, -, t, ht, -⟩ := hs.types ⟨pending, hx⟩
  obtain ⟨t', ht', -⟩ := he.host.database.types ht
  have := Database.numberedType?_lt ht'
  omega

/-! ## Legs of an import -/

/-- What a command answers.  Only a look at a single entry tells anything. -/
def answer (i : Importer) (s : Session) : Command → Option (Except ImportError Bool)
  | .process offset phase => some ((i.process offset phase).run.run s).1
  | .runTypes | .runSecondPass | .runFrames => none

def answers (i : Importer) : List Command → Session → List (Option (Except ImportError Bool))
  | [], _ => []
  | c :: rest, s => i.answer s c :: i.answers rest (i.perform s c)

/-- A session from its start to its end: what was answered in it, and what it was like then. -/
structure Leg where
  answers : List (Option (Except ImportError Bool))
  last : Session

def leg (i : Importer) (commands : List Command) (s : Session) : Leg :=
  ⟨i.answers commands s, i.performAll commands s⟩

/-- An import whose session is left, and resumed for the next commands, again and again. -/
def legs (i : Importer) (s : Session) (commands : List Command) :
    List (List Command) → Except ImportError (List Leg)
  | [] => return [i.leg commands s]
  | next :: rest => do
    let resumed ← i.resumeSession (i.finish (i.performAll commands s))
    return i.leg commands s :: (← i.legs resumed next rest)

theorem answers_append (commands later : List Command) (s : Session) :
    i.answers (commands ++ later) s =
      i.answers commands s ++ i.answers later (i.performAll commands s) := by
  induction commands generalizing s with
  | nil => rfl
  | cons c rest ih => exact congrArg _ (ih (i.perform s c))

/-! ## Commands after a past -/

theorem perform_extend (p : Past) (s : Session) (c : Command) :
    i.perform (p.extend s) c = p.extend (i.perform s c) := by
  cases c with
  | process x phase => exact congrArg Prod.snd (oblivious_process i x phase p s)
  | runTypes => exact congrArg Prod.snd (oblivious_visitUnits i .types p s)
  | runSecondPass => exact congrArg Prod.snd (oblivious_runSecondPass i p s)
  | runFrames => exact congrArg Prod.snd (oblivious_visitUnits i .frames p s)

theorem answer_extend (p : Past) (s : Session) (c : Command) :
    i.answer (p.extend s) c = i.answer s c := by
  cases c with
  | process x phase => exact congrArg (some ·.1) (oblivious_process i x phase p s)
  | runTypes | runSecondPass | runFrames => rfl

theorem performAll_extend (p : Past) (commands : List Command) (s : Session) :
    i.performAll commands (p.extend s) = p.extend (i.performAll commands s) := by
  induction commands generalizing s with
  | nil => rfl
  | cons c rest ih =>
    change i.performAll rest (i.perform (p.extend s) c) = _
    rw [perform_extend]
    exact ih _

theorem answers_extend (p : Past) (commands : List Command) (s : Session) :
    i.answers commands (p.extend s) = i.answers commands s := by
  induction commands generalizing s with
  | nil => rfl
  | cons c rest ih =>
    unfold answers
    rw [answer_extend, perform_extend, ih]

/-! ## Resuming -/

/-- A session that is resumed is the one that was left, with that behind it. -/
theorem resumeSession_finish {s : Session} (hpersist : i.config.persistCache = true)
    (hc : s.cache.Consistent) (hn : s.cache.Narrow) (hidle : s.resolving = []) :
    ∃ resumed, i.resumeSession (i.finish s) = .ok resumed ∧
      ∀ p : Past, (p.after s).extend resumed = p.extend s := by
  have hfinish : i.finish s = s.host.storeBlob i.config.cacheKey s.cache.toBytes := if_pos hpersist
  have hblob : (i.finish s).loadBlob? i.config.cacheKey = some s.cache.toBytes := by
    rw [hfinish]
    exact SortedMap.get?_insert_self _ _ _
  refine ⟨.start (i.finish s) s.cache, ?_, fun p => ?_⟩
  · unfold resumeSession
    simp only [hblob, OffsetCache.ofBytes_toBytes hc hn]
  · rw [hfinish]
    obtain ⟨host, cache, stats, resolving, warnings⟩ := s
    cases hidle
    change Session.mk _ _ _ _ ((p.warnings ++ warnings) ++ #[]) = _
    rw [Array.append_empty]
    rfl

/-- After any commands a session can be left and resumed, with no more type entries than fit. -/
theorem resumes_performAll (hi : i.info.Indexed) (hpersist : i.config.persistCache = true)
    {p : Past} {s : Session} {σ : History} (hσ : σ.session = p.extend s) (h : i.Idle σ)
    (hc : s.cache.Consistent) (commands later : List Command)
    (hsize : (i.performAll later (p.extend (i.performAll commands s))).host.database.types.size <
      UInt32.size) :
    ∃ resumed τ, i.resumeSession (i.finish (i.performAll commands s)) = .ok resumed ∧
      (∀ p : Past, (p.after (i.performAll commands s)).extend resumed =
        p.extend (i.performAll commands s)) ∧
      τ.session = p.extend (i.performAll commands s) ∧ i.Idle τ ∧ resumed.cache.Consistent := by
  obtain ⟨τ, htrace, hτ, hidle⟩ := trace_performAll hi h commands
  rw [hσ, performAll_extend] at hτ
  obtain ⟨υ, htrace', hυ, -⟩ := trace_performAll hi hidle later
  rw [hτ] at hυ
  have hconsistent := Trace.consistent htrace (by rwa [hσ])
  have hnarrow := hidle.sound.narrow (Trace.extends hidle.sound htrace') (by rwa [hυ])
  have hstack := hidle.idle
  rw [hτ] at hconsistent hnarrow hstack
  obtain ⟨resumed, hresume, hextend⟩ :=
    resumeSession_finish (s := i.performAll commands s) hpersist hconsistent hnarrow hstack
  have hcache := congrArg Session.cache (hextend p)
  change resumed.cache = (i.performAll commands s).cache at hcache
  exact ⟨resumed, τ, hresume, hextend, hτ, hidle, by rwa [hcache]⟩

/-- However a session with a past is interrupted, it ends as it would have ended otherwise. -/
theorem legs_extend (hi : i.info.Indexed) (hpersist : i.config.persistCache = true)
    {p : Past} {s : Session} {σ : History} (hσ : σ.session = p.extend s) (h : i.Idle σ)
    (hc : s.cache.Consistent) (commands : List Command) (rest : List (List Command))
    (hsize : (i.performAll (commands ++ rest.flatten) (p.extend s)).host.database.types.size <
      UInt32.size) :
    ∃ legs final q, i.legs s commands rest = .ok legs ∧ legs.getLast? = some final ∧
      legs.flatMap (·.answers) = i.answers (commands ++ rest.flatten) (p.extend s) ∧
      Past.extend q final.last = i.performAll (commands ++ rest.flatten) (p.extend s) ∧
      q.stats + final.last.stats = p.stats + (legs.map (·.last.stats)).sum := by
  induction rest generalizing p s σ commands with
  | nil =>
    refine ⟨[i.leg commands s], i.leg commands s, p, rfl, rfl, ?_, ?_, ?_⟩
    · simp [leg, answers_extend]
    · simp [leg, performAll_extend]
    · simp
  | cons next rest ih =>
    rw [List.flatten_cons, performAll_append, performAll_extend] at hsize
    obtain ⟨resumed, τ, hresume, hextend, hτ, hidle, hcr⟩ :=
      resumes_performAll hi hpersist hσ h hc commands _ hsize
    obtain ⟨legs, final, q, hlegs, hfinal, hanswers, hlast, hstats⟩ :=
      ih (p := p.after (i.performAll commands s)) (hτ.trans (hextend p).symm) hidle hcr next
        (by rwa [hextend])
    refine ⟨i.leg commands s :: legs, final, q, ?_, ?_, ?_, ?_, ?_⟩
    · unfold Importer.legs
      rw [hresume]
      change (i.legs resumed next rest >>= fun legs => pure (i.leg commands s :: legs)) = _
      rw [hlegs]
      rfl
    · rw [List.getLast?_cons, hfinal]
      rfl
    · rw [List.flatten_cons, answers_append, performAll_extend, answers_extend,
        List.flatMap_cons, hanswers, hextend]
      rfl
    · rw [hlast, hextend, List.flatten_cons, performAll_append commands (next ++ rest.flatten),
        performAll_extend p commands]
    · rw [hstats, List.map_cons, List.sum_cons, ← add_assoc]
      rfl

end Importer

/-- Wherever an import is interrupted, it goes on as if it had not been: it answers the same, ends
with the same cache and the same database up to blobs, and what it counted adds up. -/
theorem legs_eq_leg {sections : Sections} {i : Importer}
    (hdecode : DebugInfo.decode sections = .ok i.info)
    (hsize : sections.entries.size < UInt64.size) (hpersist : i.config.persistCache = true)
    (pointerSize : UInt64) (calls : List Call) (commands : List Command)
    (rest : List (List Command)) {whole : Leg}
    (hwhole : whole =
      i.leg (commands ++ rest.flatten) (newSession (Host.built pointerSize calls)))
    (htypes : whole.last.host.database.types.size < UInt32.size) :
    ∃ legs final, i.legs (newSession (Host.built pointerSize calls)) commands rest = .ok legs ∧
      legs.getLast? = some final ∧
      legs.flatMap (·.answers) = whole.answers ∧
      final.last.cache = whole.last.cache ∧
      final.last.host.withBlobs whole.last.host.database.blobs = whole.last.host ∧
      (legs.map (·.last.stats)).sum = whole.last.stats := by
  have hi := DebugInfo.indexed_of_decode hdecode hsize
  let s := newSession (Host.built pointerSize calls)
  let nothing : Past := ⟨0, #[], s.host.database.blobs⟩
  have hs : nothing.extend s = s := rfl
  have hidle : i.Idle ⟨s, []⟩ := idle_start pointerSize calls
  subst hwhole
  obtain ⟨legs, final, q, hlegs, hfinal, hanswers, hlast, hstats⟩ :=
    legs_extend (p := nothing) (s := s) hi hpersist hs.symm hidle OffsetCache.Consistent.empty
      commands rest htypes
  change q.extend final.last = (i.leg (commands ++ rest.flatten) s).last at hlast
  refine ⟨legs, final, hlegs, hfinal, hanswers, ?_, ?_, ?_⟩
  · rw [← hlast]
    rfl
  · rw [← hlast]
    rfl
  · rw [← hlast]
    exact (hstats.trans (zero_add _)).symm

/-- The types of `linked` are imported in three sessions: first the pointer with what it points
to, then all of them, then the rest. -/
theorem legs_eq_leg_linked :
    ∃ info legs final whole, DebugInfo.decode linked = .ok info ∧
      linked.entries.size < UInt64.size ∧
      whole = (Importer.mk info {}).leg
        ([.process 24 .types] ++ [[.runTypes], [.runSecondPass, .runFrames]].flatten)
        (newSession (Host.built 4 [])) ∧
      whole.last.host.database.types.size = 3 ∧
      (Importer.mk info {}).legs (newSession (Host.built 4 [])) [.process 24 .types]
        [[.runTypes], [.runSecondPass, .runFrames]] = .ok legs ∧
      legs.getLast? = some final ∧
      legs.flatMap (·.answers) = whole.answers ∧
      final.last.cache = whole.last.cache ∧
      final.last.host.withBlobs whole.last.host.database.blobs = whole.last.host ∧
      (legs.map (·.last.stats)).sum = whole.last.stats := by
  have hsize : linked.entries.size < UInt64.size := by decide
  have hrun : (DebugInfo.decode linked).toOption.any (fun info =>
      decide (((Importer.mk info {}).leg
        ([.process 24 .types] ++ [[.runTypes], [.runSecondPass, .runFrames]].flatten)
        (newSession (Host.built 4 []))).last.host.database.types.size = 3)) = true := by
    decide +kernel
  obtain ⟨info, hdecode, hrun⟩ := Except.of_any_toOption hrun
  have htypes := of_decide_eq_true hrun
  obtain ⟨legs, final, hlegs⟩ :=
    legs_eq_leg (i := ⟨info, {}⟩) hdecode hsize rfl 4 [] [.process 24 .types]
      [[.runTypes], [.runSecondPass, .runFrames]] rfl (by rw [htypes]; decide)
  exact ⟨info, legs, final, _, hdecode, hsize, rfl, htypes, hlegs⟩

end DebugSymbols
