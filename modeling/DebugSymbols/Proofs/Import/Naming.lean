import DebugSymbols.Proofs.Import.Runs

/-!
What looking for a name comes to.  `reuseOrAdd` either finds something that fits, or adds
something, or fails; what it finds or adds has the first name that is not taken by something else.
-/

namespace DebugSymbols

namespace Attempt

theorem run_ask_bind {α β : Type} (f : Session → Except ImportError α) (g : α → Attempt β)
    (s : Session) :
    (ask f >>= g).run.run s =
      match f s with
      | .ok a => (g a).run.run s
      | .error e => (.error e, s) := by
  unfold ask
  rw [bind_assoc, run_get_bind]
  cases f s <;> rfl

end Attempt

namespace Registry

variable {α : Type}

theorem reaches_zero (r : Registry α) (s : Session) (name : String) : r.Reaches s name 0 :=
  fun _ hj => absurd hj (Nat.not_lt_zero _)

theorem Reaches.succ {r : Registry α} {s : Session} {name : String} {k : Nat}
    (hp : r.Passes s name) (h : r.Reaches s (name ++ "_") k) : r.Reaches s name (k + 1) := by
  intro j hj
  cases j with
  | zero => exact hp
  | succ j => exact h j (by omega)

/-- What a lookup under up to `n` names ends with, and the session it leaves. -/
inductive Lookup (r : Registry α) (s : Session) (n : Nat) (name : String) :
    Except ImportError (Option (α × Bool)) × Session → Prop
  | known {a : α} {k : Nat} :
      k < n → r.Reaches s name k → r.find? s.host (underscored k name) = some a →
      r.fits s a = .ok true → Lookup r s n name (.ok (some (a, true)), s)
  | added {a : α} {h : Host} {k : Nat} :
      k < n → r.Reaches s name k → r.find? s.host (underscored k name) = none →
      r.add? s.host (underscored k name) = some (a, h) →
      Lookup r s n name (.ok (some (a, false)), { s with host := h })
  | exhausted : r.Reaches s name n → Lookup r s n name (.ok none, s)
  | failed {a : α} {k : Nat} {e : ImportError} :
      r.find? s.host (underscored k name) = some a → r.fits s a = .error e →
      Lookup r s n name (.error e, s)

theorem Lookup.succ {r : Registry α} {s : Session} {n : Nat} {name : String}
    {result : Except ImportError (Option (α × Bool)) × Session} (hp : r.Passes s name)
    (h : r.Lookup s n (name ++ "_") result) : r.Lookup s (n + 1) name result := by
  cases h with
  | known hlt hk hfind hfits => exact .known (Nat.succ_lt_succ hlt) (hk.succ hp) hfind hfits
  | added hlt hk hfind hadd => exact .added (Nat.succ_lt_succ hlt) (hk.succ hp) hfind hadd
  | exhausted hall => exact .exhausted (hall.succ hp)
  | @failed a k _ hfind hfits => exact .failed (k := k + 1) hfind hfits

theorem lookup_tryNames (r : Registry α) (n : Nat) (name : String) (s : Session) :
    r.Lookup s n name ((r.tryNames n name).run.run s) := by
  induction n generalizing name with
  | zero => exact .exhausted (r.reaches_zero s name)
  | succ n ih =>
    cases hfind : r.find? s.host name with
    | some a =>
      cases hfits : r.fits s a with
      | error e =>
        have hrun : (r.tryNames (n + 1) name).run.run s = (.error e, s) := by
          simp only [tryNames, Attempt.run_get_bind, Attempt.run_ask_bind, hfind, hfits]
        rw [hrun]
        exact .failed (k := 0) hfind hfits
      | ok fits =>
        cases fits with
        | true =>
          have hrun : (r.tryNames (n + 1) name).run.run s = (.ok (some (a, true)), s) := by
            simp only [tryNames, Attempt.run_get_bind, Attempt.run_ask_bind, hfind, hfits]
            rfl
          rw [hrun]
          exact .known n.succ_pos (r.reaches_zero s name) hfind hfits
        | false =>
          have hrun : (r.tryNames (n + 1) name).run.run s =
              (r.tryNames n (name ++ "_")).run.run s := by
            simp only [tryNames, Attempt.run_get_bind, Attempt.run_ask_bind, hfind, hfits]
            rfl
          rw [hrun]
          refine (ih (name ++ "_")).succ ?_
          simpa [Passes, hfind] using hfits
    | none =>
      cases hadd : r.add? s.host name with
      | some p =>
        have hrun : (r.tryNames (n + 1) name).run.run s =
            (.ok (some (p.1, false)), { s with host := p.2 }) := by
          simp only [tryNames, Attempt.run_get_bind, hfind, hadd]
          rfl
        rw [hrun]
        exact .added n.succ_pos (r.reaches_zero s name) hfind hadd
      | none =>
        have hrun : (r.tryNames (n + 1) name).run.run s =
            (r.tryNames n (name ++ "_")).run.run s := by
          simp only [tryNames, Attempt.run_get_bind, hfind, hadd]
        rw [hrun]
        refine (ih (name ++ "_")).succ ?_
        simpa [Passes, hfind] using hadd

/-- What reusing or adding something comes to. -/
theorem run_reuseOrAdd {r : Registry α} {config : Config} {name : String} {s : Session}
    {P : Except ImportError (α × Bool) × Session → Prop}
    (known : ∀ a k, k ≤ config.maxNameSuffixes → r.Reaches s name k →
      r.find? s.host (underscored k name) = some a → r.fits s a = .ok true → P (.ok (a, true), s))
    (added : ∀ a h k, k ≤ config.maxNameSuffixes → r.Reaches s name k →
      r.find? s.host (underscored k name) = none →
      r.add? s.host (underscored k name) = some (a, h) →
      P (.ok (a, false), { s with host := h }))
    (exhausted : r.Reaches s name (config.maxNameSuffixes + 1) →
      P (.error (.nameExhausted name), s))
    (failed : ∀ a k e, r.find? s.host (underscored k name) = some a → r.fits s a = .error e →
      P (.error e, s)) :
    P ((r.reuseOrAdd config name).run.run s) := by
  have hlookup := lookup_tryNames r (config.maxNameSuffixes + 1) name s
  unfold reuseOrAdd
  rw [ExceptT.run_bind, StateT.run_bind]
  generalize (r.tryNames (config.maxNameSuffixes + 1) name).run.run s = result at hlookup
  cases hlookup with
  | known hk hreaches hfind hfits => exact known _ _ (Nat.le_of_lt_succ hk) hreaches hfind hfits
  | added hk hreaches hfind hadd => exact added _ _ _ (Nat.le_of_lt_succ hk) hreaches hfind hadd
  | exhausted hall => exact exhausted hall
  | failed hfind hfits => exact failed _ _ _ hfind hfits

/-- A lookup is a trace if adding something is a change. -/
theorem tracks_reuseOrAdd {r : Registry α} {i : Importer} {scope : Scope} {σ : History}
    {config : Config} {name : String} {ok : α × Bool → History → Prop}
    {err : ImportError → History → Prop}
    (known : ∀ a k, r.Reaches σ.session name k →
      r.find? σ.session.host (underscored k name) = some a → r.fits σ.session a = .ok true →
      ok (a, true) σ)
    (added : ∀ a h k, r.Reaches σ.session name k →
      r.find? σ.session.host (underscored k name) = none →
      r.add? σ.session.host (underscored k name) = some (a, h) →
      ∃ τ, i.Change scope σ τ ∧ τ.session = { σ.session with host := h } ∧ ok (a, false) τ)
    (failed : ∀ e, err e σ) :
    Attempt.Tracks i scope σ (r.reuseOrAdd config name) ok err := by
  let P (result : Except ImportError (α × Bool) × Session) : Prop :=
    ∃ a τ, result = (a, τ.session) ∧ i.Trace scope σ τ ∧
      τ.session.resolving = σ.session.resolving ∧ Attempt.Ends ok err a τ
  refine run_reuseOrAdd (P := P) ?_ ?_ ?_ ?_
  · exact fun a k _ hk hfind hfits => ⟨_, σ, rfl, .refl, rfl, known a k hk hfind hfits⟩
  · intro a h k _ hk hfind hadd
    obtain ⟨τ, hc, heq, hok⟩ := added a h k hk hfind hadd
    exact ⟨.ok _, τ, by rw [heq], .single hc, by rw [heq], hok⟩
  · exact fun _ => ⟨_, σ, rfl, .refl, rfl, failed _⟩
  · exact fun _ _ _ _ _ => ⟨_, σ, rfl, .refl, rfl, failed _⟩

end Registry

/-- The name belongs to a type of another shape. -/
def Database.Occupied (db : Database) (shape : TypeShape) (name : String) : Prop :=
  ∃ o t, db.namedType? name = some o ∧ db.numberedType? o = some t ∧ t.shape ≠ shape

/-- A host that refuses nothing passes over just the names that are occupied. -/
theorem passes_shapeRegistry_iff {s : Session} {shape : TypeShape} {name : String}
    (hopen : ∀ c, s.host.refuses c = false) :
    (shapeRegistry shape).Passes s name ↔ s.host.database.Occupied shape name := by
  have hnumbered (o : Ordinal) : s.host.numberedType? o = s.host.database.numberedType? o := by
    simp [Host.numberedType?, hopen]
  simp only [Registry.Passes, shapeRegistry, Host.namedType?, Database.Occupied, hnumbered]
  cases hnamed : s.host.database.namedType? name with
  | some o =>
    obtain ⟨shape', ht⟩ := Database.numberedType?_of_named hnamed
    simp [ht]
  | none => simp [Host.addNamedType?, hopen, Database.addNamedType?, hnamed]

namespace Importer

variable {i : Importer} {scope : Scope} {σ : History}

theorem Sound.numberedType? (hs : i.Sound σ) (o : Ordinal) :
    σ.session.host.numberedType? o = σ.session.host.database.numberedType? o := by
  simp [Host.numberedType?, hs.accepts]

theorem Sound.enumDef? (hs : i.Sound σ) (id : EnumId) :
    σ.session.host.enumDef? id = σ.session.host.database.enumDef? id := by
  simp [Host.enumDef?, hs.accepts]

theorem Sound.structDef? (hs : i.Sound σ) (id : StructId) :
    σ.session.host.structDef? id = σ.session.host.database.structDef? id := by
  simp [Host.structDef?, hs.accepts]

/-- The type is of the shape and has the first name that is not taken by something else.  At most
this type is new. -/
structure Registered (σ τ : History) (name : String) (shape : TypeShape) (o : Ordinal) (k : Nat) :
    Prop where
  reaches : (shapeRegistry shape).Reaches σ.session name k
  named : τ.session.host.database.namedType? (underscored k name) = some o
  numbered : τ.session.host.database.numberedType? o = some ⟨underscored k name, shape⟩
  cache : τ.session.cache = σ.session.cache
  structs : τ.session.host.database.structs = σ.session.host.database.structs
  enums : τ.session.host.database.enums = σ.session.host.database.enums
  types : ∀ {o t}, τ.session.host.database.numberedType? o = some t →
    σ.session.host.database.numberedType? o = some t ∨ t.shape = shape

theorem tracks_registerType_first (hs : i.Sound σ) (name : String) {shape : TypeShape}
    (hshape : ¬ shape.IsDefinition)
    (hoccurs : ∀ target, shape = .typedef target →
      ∃ q, σ.session.host.database.namedType? target = some q ∧ σ.session.Occurs q) :
    Attempt.Tracks i scope σ (i.registerType name shape)
      (fun o τ => ∃ k, Registered σ τ name shape o k) fun _ _ => True := by
  unfold registerType
  rw [map_eq_pure_bind]
  have hfound : Attempt.Tracks i scope σ ((shapeRegistry shape).reuseOrAdd i.config name)
      (fun p τ => ∃ k, Registered σ τ name shape p.1 k) fun _ _ => True := by
    refine Registry.tracks_reuseOrAdd ?_ ?_ fun _ => trivial
    · intro o k hreaches hfind hfits
      obtain ⟨shape', ht⟩ := Database.numberedType?_of_named hfind
      simp only [shapeRegistry, hs.numberedType?, ht] at hfits
      have hsame : shape' = shape := by simpa using hfits
      exact ⟨k, hreaches, hfind, hsame ▸ ht, rfl, rfl, rfl, .inl⟩
    · intro o h k hreaches _ hadd
      have hgrows := Host.grows_addNamedType? hshape hadd
      obtain ⟨db, hdb, rfl⟩ := Host.addNamedType?_eq_some hadd
      have hsteady := Database.steady_addNamedType? hdb
      have hretains := Database.retains_addNamedType? hshape hdb
      have hnumbered := Database.numberedType?_addNamedType? hdb
      have hcoherent := hs.coherent.addNamedType? hdb
      have htypes {o' : Ordinal} {t : NamedType} (ht : db.numberedType? o' = some t) :
          σ.session.host.database.numberedType? o' = some t ∨ t.shape = shape := by
        obtain ⟨-, rfl, rfl⟩ := Database.addNamedType?_eq_some hdb
        rw [Database.numberedType?_push rfl] at ht
        split at ht
        · cases ht
          exact .inr rfl
        · exact .inl ht
      have haliases : σ.session.Aliases { σ.session.host with database := db } :=
        fun ht => (htypes ht).imp_right fun heq => hoccurs _ heq.symm
      obtain ⟨-, -, hdb'⟩ := Database.addNamedType?_eq_some hdb
      exact ⟨_, .grow σ hgrows hretains haliases (.inl hsteady), rfl, k, hreaches,
        hcoherent.named hnumbered, hnumbered, rfl, by rw [hdb'], by rw [hdb'], htypes⟩
  exact Attempt.tracks_bind hfound fun p τ _ _ h => Attempt.tracks_pure h

/-- A type of the given shape is there afterwards. -/
theorem tracks_registerType (hs : i.Sound σ) (name : String) {shape : TypeShape}
    (hshape : ¬ shape.IsDefinition) (halias : ∀ target, shape ≠ .typedef target) :
    Attempt.Tracks i scope σ (i.registerType name shape)
      (fun o τ => ∃ taken, τ.session.host.database.numberedType? o = some ⟨taken, shape⟩)
      fun _ _ => True :=
  (tracks_registerType_first hs name hshape fun target heq => (halias target heq).elim).imp
    (fun _ _ _ _ ⟨_, h⟩ => ⟨_, h.numbered⟩) fun _ _ h => h

end Importer

end DebugSymbols
