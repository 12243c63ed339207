import DebugSymbols.Proofs.Import.Records

/-!
What resolving a type comes to.  `describes_describe` is the statement for all handlers,
`visits_resolveDie` says that the visit of an entry makes a trace and tells truly what became of
the entry, and `resolves_resolve` that the resolver does.
-/

namespace DebugSymbols.Importer

variable {i : Importer} {scope : Scope} {σ : History} {d : Die} {resolve : Resolver}

theorem describes_describe (hi : i.info.Indexed) (hr : i.Resolves scope resolve)
    (ht : i.Turn σ d) (hfresh : σ.Fresh d.offset) :
    i.Describes scope σ d (i.describe resolve d) := by
  unfold describe
  split
  · exact describes_baseType ht ‹_›
  · exact describes_unspecifiedType ht ‹_›
  · exact describes_enumType hi ht ‹_›
  · exact describes_onTarget hr ht (by simp_all [Tag.isModifier]) (derives_derivedFrom (.inl ‹_›))
  · exact describes_onTarget hr ht (by simp_all [Tag.isModifier])
      (derives_derivedFrom (.inr (.inl ‹_›)))
  · exact describes_onTarget hr ht (by simp_all [Tag.isModifier])
      (derives_derivedFrom (.inr (.inr ‹_›)))
  · exact describes_typedefType hr ht ‹_›
  · exact describes_arrayType hr ht ‹_›
  · exact describes_recordType hr ht hfresh (isRecord_iff.mpr (.inl ‹_›))
  · exact describes_recordType hr ht hfresh (isRecord_iff.mpr (.inr ‹_›))
  · exact describes_onTarget hr ht (by simp_all [Tag.isModifier]) (derives_functionTo ‹_›)
  · exact Attempt.tracks_pure .useless

/-- What the outcome of a visit says about the entry at an offset. -/
def Became (i : Importer) (τ : History) (x : UInt64) : Outcome → Prop
  | .type o pending => τ.session.cache.type? x = some (o, pending)
  | .useless => τ.session.cache.has x = true ∧ τ.session.cache.type? x = none
  | .deferred => i.Awaits τ.session.resolving x

/-- Visits make traces and tell truly what became of the entry. -/
def Visits (i : Importer) (scope : Scope) (visit : Die → Step Outcome) : Prop :=
  ∀ σ d, i.Sound σ → i.info.dieAt d.offset = .ok d → i.MayAsk scope d.offset σ.session.resolving →
    Step.Tracks i scope σ (visit d) fun out τ => i.Became τ d.offset out

theorem Became.answers {τ : History} {x : UInt64} {out : Outcome} (h : i.Became τ x out) :
    i.Answers τ x out.toRef := by
  cases out with
  | type o pending => exact ⟨pending, h⟩
  | useless => exact h
  | deferred => exact h

theorem useless_of_get? {c : OffsetCache} {x : UInt64} {cl : Classification}
    (hget : c.get? x = some cl) (hcl : ∀ o pending, cl ≠ .type o pending) :
    c.has x = true ∧ c.type? x = none := by
  refine ⟨by simp [OffsetCache.has, hget], ?_⟩
  rw [OffsetCache.type?_eq_none]
  intro o pending heq
  rw [hget] at heq
  exact hcl o pending (Option.some.inj heq)

theorem resolves_resolveWith (hi : i.info.Indexed) {visit : Die → Step Outcome}
    (hv : i.Visits scope visit) : i.Resolves scope (i.resolveWith visit) := by
  intro σ x hs hask
  refine Step.tracks_get_bind ?_
  split
  · rename_i o pending hget
    exact Step.tracks_pure ⟨pending, OffsetCache.type?_eq_some.mpr hget⟩
  · rename_i cl hother hget
    exact Step.tracks_pure (useless_of_get? hget fun o pending heq => hother o pending heq)
  · rename_i hget
    split
    · rename_i hmem
      exact Step.tracks_pure (.here hmem)
    · rename_i hmem
      split
      · rename_i d hd
        have hoffset := hi.offset_of_dieAt hd
        subst hoffset
        refine Step.tracks_bind (hv σ d hs hd hask) fun out τ _ _ hbecame => ?_
        exact Step.tracks_pure hbecame.answers
      · rename_i e _
        refine Step.tracks_bind (Step.tracks_fail x (.debugInfo e)) fun _ τ _ hstack hsame => ?_
        have hmem' : x ∉ τ.session.resolving := by rwa [hstack]
        refine Step.tracks_bind (Step.tracks_markUseless hmem') fun _ υ _ _ hcache => ?_
        refine Step.tracks_pure ?_
        rw [hsame.1] at hcache
        refine ⟨?_, ?_⟩
        · simp [hcache, OffsetCache.has, OffsetCache.get?_markUseless]
        · rw [hcache, OffsetCache.type?_markUseless, type?_eq_none_of_get? hget]

/-! ## Visits -/

/-- What is remembered of an entry whose handler ended so. -/
def outcomeOf : Except ImportError Outcome → Outcome
  | .ok out => out
  | .error _ => .useless

theorem run_settle (x : UInt64) (result : Except ImportError Outcome) (s : Session) :
    ∃ stats warnings, (settle x result).run s =
      (outcomeOf result,
        { s with stats, warnings, cache := remember x s.cache (outcomeOf result) }) := by
  rcases result with e | ⟨o, pending⟩ | - | -
  · exact ⟨_, _, rfl⟩
  · by_cases hopen : s.cache.isOpen x = true
    · refine ⟨{ s.stats with
        typesRegistered := s.stats.typesRegistered + 1
        structsPending := s.stats.structsPending + pending.toNat }, s.warnings, ?_⟩
      simp [settle, hopen, Step.count, Step.updateCache, remember, outcomeOf]
      rfl
    · refine ⟨s.stats, s.warnings, ?_⟩
      simp [settle, hopen, Step.count, Step.updateCache, remember, outcomeOf]
      rfl
  · exact ⟨_, _, rfl⟩
  · exact ⟨_, _, rfl⟩

/-- Runs the handler of an entry, if the types are not nested too deep for that. -/
def handle (i : Importer) (levels : Nat) (d : Die) : Step (Except ImportError Outcome) :=
  match levels with
  | 0 => pure (.error (.resolveDepthExceeded i.config.maxResolveDepth))
  | levels + 1 => (i.describe (i.resolveWith (i.resolveDie levels)) d).run

/-- The session in which the handler of an entry runs. -/
def entered (s : Session) (x : UInt64) : Session :=
  { s with
    stats := { s.stats with diesDispatched := s.stats.diesDispatched + 1 }
    resolving := x :: s.resolving }

/-- The innermost entry is left, and what its handler found is remembered. -/
def leave (x : UInt64) (result : Except ImportError Outcome) : Step Outcome := do
  modify fun s => { s with resolving := s.resolving.tail }
  settle x result

/-- An entry that is new is handled and remembered. -/
theorem run_resolveDie {levels : Nat} {s : Session} (hget : s.cache.get? d.offset = none)
    (hmem : d.offset ∉ s.resolving) :
    (i.resolveDie levels d).run s =
      (i.handle levels d >>= leave d.offset).run (entered s d.offset) := by
  unfold resolveDie
  rw [StateT.run_bind, StateT.run_get, pure_bind]
  simp only [hget, hmem, if_false]
  cases levels <;> rfl

/-- An entry that is cached, or is being resolved, has no handler run.  It is a type only if the
cache says so. -/
theorem run_resolveDie_known {levels : Nat} {s : Session}
    (h : ¬(s.cache.get? d.offset = none ∧ d.offset ∉ s.resolving)) :
    ∃ out, (i.resolveDie levels d).run s = (out, s) ∧
      ∀ o pending, out = .type o pending → s.cache.type? d.offset = some (o, pending) := by
  unfold resolveDie
  rw [StateT.run_bind, StateT.run_get, pure_bind]
  dsimp only
  split
  · rename_i hget
    refine ⟨_, rfl, fun o pending heq => ?_⟩
    cases heq
    exact OffsetCache.type?_eq_some.mpr hget
  · exact ⟨_, rfl, nofun⟩
  · rename_i hget
    have hmem : d.offset ∈ s.resolving := by_contra fun hmem => h ⟨hget, hmem⟩
    rw [if_pos hmem]
    exact ⟨.deferred, rfl, nofun⟩

theorem run_leave (x : UInt64) (result : Except ImportError Outcome) (s : Session) :
    ∃ stats warnings, (leave x result).run s =
      (outcomeOf result,
        { s with
          stats, warnings
          resolving := s.resolving.tail
          cache := remember x s.cache (outcomeOf result) }) :=
  run_settle x result { s with resolving := s.resolving.tail }

theorem leave_handled {τ : History} {rest : List UInt64} {result : Except ImportError Outcome}
    (hs : i.Sound τ) (hstack : τ.session.resolving = d.offset :: rest)
    (hat : i.info.dieAt d.offset = .ok d) (hfinding : i.Finding τ d (outcomeOf result)) :
    ∃ υ, (leave d.offset result).run τ.session = (outcomeOf result, υ.session) ∧
      i.Trace scope τ υ ∧ υ.session.resolving = rest ∧ i.Became υ d.offset (outcomeOf result) := by
  obtain ⟨stats, warnings, hrun⟩ := run_leave d.offset result τ.session
  have hget := hs.uncached d.offset (by simp [hstack])
  let left : History := { τ with
    session := { τ.session with
      resolving := rest
      cache := remember d.offset τ.session.cache (outcomeOf result) } }
  have hleave : i.Change scope τ left := .leave τ hstack hat hfinding
  have hnote : i.Change scope left { left with session := { left.session with stats, warnings } } :=
    .note left stats warnings
  refine ⟨_, ?_, (Relation.ReflTransGen.single hleave).tail hnote, rfl, ?_⟩
  · rw [hrun, hstack]
    rfl
  · cases hout : outcomeOf result with
    | type o pending =>
      change (remember d.offset τ.session.cache (outcomeOf result)).type? d.offset = _
      rw [type?_remember hget, hout]
      simp
    | useless =>
      refine ⟨?_, ?_⟩
      · change (remember d.offset τ.session.cache (outcomeOf result)).has d.offset = true
        rw [hout]
        simp [remember, OffsetCache.has, OffsetCache.get?_markUseless]
      · change (remember d.offset τ.session.cache (outcomeOf result)).type? d.offset = none
        rw [type?_remember hget, hout]
        exact type?_eq_none_of_get? hget
    | deferred =>
      rw [hout] at hfinding
      cases hfinding with
      | deferred hmodifies hawaits =>
        rw [hstack] at hawaits
        exact .there hat hmodifies hawaits

/-- The history in which the handler of an entry runs. -/
def opened (σ : History) (x : UInt64) : History := { σ with session := entered σ.session x }

theorem trace_opened (hget : σ.session.cache.get? d.offset = none)
    (hmem : d.offset ∉ σ.session.resolving) (hat : i.info.dieAt d.offset = .ok d)
    (hask : i.MayAsk scope d.offset σ.session.resolving) :
    i.Trace scope σ (opened σ d.offset) := by
  let noted : History := { σ with
    session := { σ.session with
      stats := { σ.session.stats with diesDispatched := σ.session.stats.diesDispatched + 1 } } }
  have hnote : i.Change scope σ noted := .note σ _ _
  have henter : i.Change scope noted (opened σ d.offset) := .enter noted hget hmem hat hask
  exact (Relation.ReflTransGen.single hnote).tail henter

/-- An entry that is new has its handler run, and is left. -/
theorem tracks_new {levels : Nat} {P : Outcome → History → Prop} (hs : i.Sound σ)
    (hget : σ.session.cache.get? d.offset = none) (hmem : d.offset ∉ σ.session.resolving)
    (hat : i.info.dieAt d.offset = .ok d) (hask : i.MayAsk scope d.offset σ.session.resolving)
    (hh : Step.Tracks i scope (opened σ d.offset) (i.handle levels d) fun r τ =>
      i.Finding τ d (outcomeOf r) ∧ P (outcomeOf r) τ) :
    Step.Tracks i scope σ (i.resolveDie levels d) fun out υ =>
      i.Became υ d.offset out ∧ ∃ τ, i.Sound τ ∧ i.Trace scope τ υ ∧ P out τ := by
  have htrace := trace_opened hget hmem hat hask
  obtain ⟨result, τ, hrun, htrace', hstack, hfinding, hP⟩ := hh
  have hs' := Trace.sound (Trace.sound hs htrace) htrace'
  obtain ⟨υ, hrun', htrace'', hstack', hbecame⟩ := leave_handled hs' hstack hat hfinding
  refine ⟨outcomeOf result, υ, ?_, (htrace.trans htrace').trans htrace'', hstack', hbecame, τ, hs',
    htrace'', hP⟩
  rw [run_resolveDie hget hmem, StateT.run_bind]
  change (do
    let p ← (i.handle levels d).run (opened σ d.offset).session
    _) = _
  rw [hrun]
  exact hrun'

/-- A visit does what it should if the handler does. -/
theorem visits_of_handle {levels : Nat}
    (hh : ∀ σ d, i.Turn σ d → σ.Fresh d.offset →
      Step.Tracks i scope σ (i.handle levels d) fun r τ => i.Finding τ d (outcomeOf r)) :
    i.Visits scope (i.resolveDie levels) := by
  intro σ d hs hat hask
  cases hget : σ.session.cache.get? d.offset with
  | some cl =>
    unfold resolveDie
    refine Step.tracks_get_bind ?_
    rw [hget]
    cases cl with
    | type o pending => exact Step.tracks_pure (OffsetCache.type?_eq_some.mpr hget)
    | useless => exact Step.tracks_pure (useless_of_get? hget nofun)
    | placed => exact Step.tracks_pure (useless_of_get? hget nofun)
  | none =>
    by_cases hmem : d.offset ∈ σ.session.resolving
    · unfold resolveDie
      refine Step.tracks_get_bind ?_
      simp only [hget, hmem, if_true]
      exact Step.tracks_pure (.here hmem)
    · have hturn : i.Turn (opened σ d.offset) d :=
        ⟨Trace.sound hs (trace_opened hget hmem hat hask), hat, rfl⟩
      have hhandle := (hh _ d hturn (hs.fresh hget hmem)).imp
        fun _ _ _ _ hfinding => And.intro hfinding trivial
      exact (tracks_new (P := fun _ _ => True) hs hget hmem hat hask hhandle).imp
        fun _ _ _ _ h => h.1

/-- What a handler finds, if it does not fail. -/
theorem Describes.finding {m : Attempt Outcome} (h : i.Describes scope σ d m) :
    Step.Tracks i scope σ m.run fun r τ => i.Finding τ d (outcomeOf r) := by
  refine Step.Tracks.imp h fun r τ _ _ hend => ?_
  cases r with
  | ok out => exact hend
  | error e => exact .useless

theorem visits_resolveDie (hi : i.info.Indexed) (levels : Nat) :
    i.Visits scope (i.resolveDie levels) := by
  induction levels with
  | zero => exact visits_of_handle fun σ d _ _ => Step.tracks_pure .useless
  | succ levels ih =>
    exact visits_of_handle fun σ d ht hfresh =>
      (describes_describe hi (resolves_resolveWith hi ih) ht hfresh).finding

theorem resolves_resolve (hi : i.info.Indexed) : i.Resolves scope i.resolve :=
  resolves_resolveWith hi (visits_resolveDie hi _)

end DebugSymbols.Importer
