import DebugSymbols.Proofs.Import.Invocations
import DebugSymbols.Proofs.Registration

/-!
What handlers can rely on wherever they are run.  A session is `Reliable` if its host refuses
nothing, the constants of each enumeration have different names, and whatever the cache calls a
type is there.  `Step.Relies` says that a step keeps this and ends as stated; `Attempt.Relies` says
so of attempts, which may end in an error as well.  Neither asks who is being resolved, so they
hold of entries and sessions that have nothing to do with each other.

Main statements: `dependable_resolveDie`, `makes_describe`, and `makes_recordType` and
`relies_enumType`, which add that an error leaves the host as it was.
-/

namespace DebugSymbols

open Importer

variable {i : Importer} {s t : Session} {d : Die} {o : Ordinal} {α β : Type}

/-! ## Sessions -/

namespace Session

/-- There is a type with the ordinal. -/
def Knows (s : Session) (o : Ordinal) : Prop := ∃ t, s.host.database.numberedType? o = some t

/-- What is resolved is there. -/
def Offers (s : Session) : TypeRef → Prop
  | .resolved o => s.Knows o
  | .inProgress | .missing => True

/-- No call is refused, the constants of an enumeration have different names, and whatever is cached
as a type is there. -/
structure Reliable (s : Session) : Prop where
  coherent : s.host.database.Coherent
  accepts : ∀ c, s.host.refuses c = false
  distinct : ∀ {id e}, s.host.database.enumDef? id = some e → (Listing.names e.constants).Nodup
  types : ∀ {x o}, s.TypeAt x o → s.Knows o

theorem Knows.mono (he : s.host.Extends t.host) (h : s.Knows o) : t.Knows o := by
  obtain ⟨_, ht⟩ := h
  obtain ⟨type, htype, -⟩ := he.database.types ht
  exact ⟨type, htype⟩

theorem knows_of_named {name : String} (h : s.host.namedType? name = some o) : s.Knows o := by
  obtain ⟨shape, ht⟩ := Database.numberedType?_of_named h
  exact ⟨_, ht⟩

/-- A session stays reliable if its host grows, enumerations are new only with different names, and
nothing is cached but what is there. -/
theorem Reliable.later (h : s.Reliable) (he : s.host.Extends t.host)
    (henums : ∀ {id e}, t.host.database.enumDef? id = some e →
      s.host.database.enumDef? id = some e ∨ (Listing.names e.constants).Nodup)
    (htypes : ∀ {x o}, t.TypeAt x o → s.TypeAt x o ∨ t.Knows o) : t.Reliable where
  coherent := he.coherent h.coherent
  accepts c := by
    rw [he.refuses]
    exact h.accepts c
  distinct hd := (henums hd).elim h.distinct id
  types ht := (htypes ht).elim (fun hold => (h.types hold).mono he) id

theorem Reliable.numberedType? (h : s.Reliable) (o : Ordinal) :
    s.host.numberedType? o = s.host.database.numberedType? o := by
  simp [Host.numberedType?, h.accepts]

theorem Reliable.knows_of_structOrdinal (h : s.Reliable) {id : StructId}
    (ho : s.structOrdinal id = .ok o) : s.Knows o := by
  unfold structOrdinal at ho
  split at ho
  · rename_i def_ hdef
    cases ho
    simp only [Host.structDef?, h.accepts, Bool.false_eq_true, if_false] at hdef
    exact ⟨_, h.coherent.structs hdef⟩
  · cases ho

/-- A type that is there can be linked to, unless its size is unknown. -/
theorem Reliable.sizedLinkTo (h : s.Reliable) (ho : s.Knows o) :
    (∃ link size, s.sizedLinkTo o = .ok (link, size)) ∨
      s.sizedLinkTo o = .error (.sizeUnknown o) := by
  obtain ⟨type, htype⟩ := ho
  rcases sizedLinkTo_of_some ((h.numberedType? o).trans htype) with ⟨link, size, -, hok⟩ | ⟨-, he⟩
  · exact .inl ⟨link, size, hok⟩
  · exact .inr he

end Session

/-! ## Steps -/

namespace Step

/-- The session stays reliable, its host grows at most, and the step ends as stated. -/
def Relies (s : Session) (m : Step α) (post : α → Session → Prop) : Prop :=
  ∃ a t, m.run s = (a, t) ∧ t.Reliable ∧ s.host.Extends t.host ∧ post a t

variable {post : α → Session → Prop}

theorem relies_pure {a : α} (hs : s.Reliable) (h : post a s) : Relies s (pure a) post :=
  ⟨a, s, rfl, hs, .refl _, h⟩

theorem relies_bind {m : Step α} {f : α → Step β} {post' : β → Session → Prop}
    (hm : Relies s m post)
    (hf : ∀ a t, t.Reliable → s.host.Extends t.host → post a t → Relies t (f a) post') :
    Relies s (m >>= f) post' := by
  obtain ⟨a, t, hrun, ht, he, hmid⟩ := hm
  obtain ⟨b, u, hrun', hu, he', hpost⟩ := hf a t ht he hmid
  refine ⟨b, u, ?_, hu, he.trans he', hpost⟩
  rw [StateT.run_bind, hrun]
  exact hrun'

theorem relies_get_bind {f : Session → Step α} (h : Relies s (f s) post) :
    Relies s (get >>= f) post := h

theorem Relies.imp {m : Step α} {post' : α → Session → Prop} (h : Relies s m post)
    (himp : ∀ a t, post a t → post' a t) : Relies s m post' := by
  obtain ⟨a, t, hrun, ht, he, hpost⟩ := h
  exact ⟨a, t, hrun, ht, he, himp a t hpost⟩

/-- A change that leaves the host as it was, and caches no types. -/
theorem relies_modify {f : Session → Session} (hs : s.Reliable) (hhost : (f s).host = s.host)
    (hcache : ∀ x, (f s).cache.type? x = s.cache.type? x) :
    Relies s (modify f) fun _ u => u.host = s.host := by
  have he : s.host.Extends (f s).host := hhost ▸ .refl _
  refine ⟨⟨⟩, f s, rfl, hs.later he (hhost ▸ .inl) fun {x o} ht => .inl ?_, he, hhost⟩
  unfold Session.TypeAt at ht
  rwa [hcache] at ht

theorem relies_warn (hs : s.Reliable) (w : Warning) :
    Relies s (warn w) fun _ t => t.host = s.host :=
  relies_modify hs rfl fun _ => rfl

theorem relies_markUseless (hs : s.Reliable) (x : UInt64) :
    Relies s (updateCache (·.markUseless x)) fun _ t => t.host = s.host :=
  relies_modify hs rfl fun y => OffsetCache.type?_markUseless _ x y

theorem relies_fail (hs : s.Reliable) (x : UInt64) (e : ImportError) :
    Relies s (fail x e) fun _ t => t.host = s.host :=
  relies_bind (relies_warn hs _) fun _ _ ht _ hhost =>
    (relies_modify ht rfl fun _ => rfl).imp fun _ _ h => h.trans hhost

theorem relies_setHost {h : Host} (hs : s.Reliable) (he : s.host.Extends h)
    (henums : h.database.enums = s.host.database.enums) :
    Relies s (setHost h) fun _ t => t.host = h := by
  refine ⟨⟨⟩, { s with host := h }, rfl, hs.later he (fun {id e} hd => .inl ?_) .inl, he, rfl⟩
  rwa [Database.enumDef?, henums] at hd

end Step

/-! ## Attempts -/

namespace Attempt

/-- How an attempt ends: with success, or else with an error. -/
def Leaves (ok : α → Session → Prop) (err : Session → Prop) :
    Except ImportError α → Session → Prop
  | .ok a => ok a
  | .error _ => err

def Relies (s : Session) (m : Attempt α) (ok : α → Session → Prop) (err : Session → Prop) :
    Prop :=
  Step.Relies s m.run (Leaves ok err)

variable {ok : α → Session → Prop} {err : Session → Prop}

theorem relies_pure {a : α} (hs : s.Reliable) (h : ok a s) : Relies s (pure a) ok err :=
  Step.relies_pure (a := Except.ok a) hs h

theorem relies_throw {e : ImportError} (hs : s.Reliable) (h : err s) :
    Relies s (throw e) ok err :=
  Step.relies_pure (a := Except.error e) hs h

theorem relies_bind {m : Attempt α} {f : α → Attempt β} {ok' : β → Session → Prop}
    (hm : Relies s m ok err)
    (hf : ∀ a t, t.Reliable → s.host.Extends t.host → ok a t → Relies t (f a) ok' err) :
    Relies s (m >>= f) ok' err := by
  unfold Relies
  rw [ExceptT.run_bind]
  refine Step.relies_bind hm fun r t ht he hmid => ?_
  cases r with
  | ok a => exact hf a t ht he hmid
  | error e => exact Step.relies_pure ht hmid

theorem Relies.imp {m : Attempt α} {ok' : α → Session → Prop} {err' : Session → Prop}
    (h : Relies s m ok err)
    (hok : ∀ a t, ok a t → ok' a t) (herr : ∀ t, err t → err' t) : Relies s m ok' err' := by
  refine Step.Relies.imp h fun r t hpost => ?_
  cases r with
  | ok a => exact hok a t hpost
  | error e => exact herr t hpost

/-- It does not matter what an error leaves. -/
theorem Relies.lax {m : Attempt α} (h : Relies s m ok err) : Relies s m ok fun _ => True :=
  h.imp (fun _ _ h => h) fun _ _ => trivial

theorem relies_lift {m : Step α} (h : Step.Relies s m ok) : Relies s (liftM m) ok err := by
  obtain ⟨a, t, hrun, ht, he, hpost⟩ := h
  exact ⟨.ok a, t, run_lift hrun, ht, he, hpost⟩

theorem relies_get_bind {f : Session → Attempt α} (h : Relies s (f s) ok err) :
    Relies s (get >>= f) ok err := h

theorem relies_read_bind {x : Except DebugInfo.Error β} {f : β → Attempt α} (hs : s.Reliable)
    (herr : err s) (hok : ∀ a, x = .ok a → Relies s (f a) ok err) :
    Relies s (read x >>= f) ok err := by
  cases x with
  | ok a => exact hok a rfl
  | error e => exact relies_throw hs herr

theorem relies_ask_bind {f : Session → Except ImportError β} {g : β → Attempt α} (hs : s.Reliable)
    (herr : ∀ e, f s = .error e → err s) (hok : ∀ a, f s = .ok a → Relies s (g a) ok err) :
    Relies s (ask f >>= g) ok err := by
  unfold ask
  rw [bind_assoc]
  refine relies_get_bind ?_
  cases h : f s with
  | ok a => exact hok a h
  | error e => exact relies_throw hs (herr e h)

theorem relies_map {m : Attempt α} {f : α → β} {ok : β → Session → Prop}
    (h : Relies s m (fun a t => ok (f a) t) err) : Relies s (f <$> m) ok err := by
  rw [map_eq_pure_bind]
  exact relies_bind h fun a t ht _ ha => relies_pure ht ha

/-- What is left to do when the first part has succeeded. -/
theorem relies_run_bind {m : Attempt α} {f : α → Attempt β} {ok : β → Session → Prop} {a : α}
    (hrun : m.run.run s = (.ok a, t)) (he : s.host.Extends t.host) (h : Relies t (f a) ok err) :
    Relies s (m >>= f) ok err := by
  obtain ⟨r, u, hrun', hu, he', hpost⟩ := h
  exact ⟨r, u, (run_bind_ok hrun).trans hrun', hu, he.trans he', hpost⟩

/-! The postconditions hold of runs. -/

theorem Relies.of_ok {m : Attempt α} (h : Relies s m ok err) {a : α}
    (hrun : m.run.run s = (.ok a, t)) : ok a t := by
  obtain ⟨r, u, hrun', -, -, hpost⟩ := h
  cases hrun.symm.trans hrun'
  exact hpost

theorem Relies.of_error {m : Attempt α} (h : Relies s m ok err) {e : ImportError}
    (hrun : m.run.run s = (.error e, t)) : err t := by
  obtain ⟨r, u, hrun', -, -, hpost⟩ := h
  cases hrun.symm.trans hrun'
  exact hpost

end Attempt

namespace Importer

open Attempt

/-! ## Types that stand for themselves -/

theorem relies_registerType (hs : s.Reliable) (name : String) (shape : TypeShape) :
    Relies s (i.registerType name shape) (fun o t => t.Knows o) fun t => t.host = s.host := by
  obtain ⟨r, db, hrun, hregisters⟩ := registers_registerType i hs.accepts name shape
  cases hregisters with
  | first _ _ htakes =>
    have he : s.host.Extends { s.host with database := db } :=
      ⟨rfl, htakes.extends_, htakes.coherent⟩
    refine ⟨_, _, hrun, hs.later he (fun {id e} hd => .inl ?_) .inl, he, _, htakes.numbered⟩
    rwa [Database.enumDef?, htakes.enums] at hd
  | exhausted => exact ⟨_, _, hrun, hs, .refl _, rfl⟩

/-- What becomes of an entry is there. -/
abbrev Makes (s : Session) (m : Attempt Outcome) (err : Session → Prop) : Prop :=
  Relies s m (fun out t => t.Offers out.toRef) err

theorem makes_settled {m : Attempt Ordinal} {err : Session → Prop}
    (h : Relies s m (fun o t => t.Knows o) err) : Makes s (settled <$> m) err :=
  relies_map h

theorem makes_baseType (hs : s.Reliable) (d : Die) :
    Makes s (i.baseType d) fun _ => True := by
  refine relies_read_bind hs trivial fun name _ => ?_
  refine relies_read_bind hs trivial fun size _ => ?_
  refine relies_read_bind hs trivial fun encoding _ => ?_
  split
  · exact relies_pure hs trivial
  · rename_i shape expected _
    have register {t : Session} (ht : t.Reliable) :
        Makes t (settled <$> i.registerType name shape) fun _ => True :=
      makes_settled (relies_registerType ht name shape).lax
    split
    · exact relies_bind (relies_lift (Step.relies_warn hs _)) fun _ _ ht _ _ => register ht
    · exact register hs

theorem makes_unspecifiedType (hs : s.Reliable) (d : Die) :
    Makes s (i.unspecifiedType d) fun _ => True :=
  relies_read_bind hs trivial fun _ _ => makes_settled (relies_registerType hs _ _).lax

/-! ## Types that are made from others -/

/-- What the resolver resolves is there. -/
def Reliably (resolve : Resolver) : Prop :=
  ∀ s x, s.Reliable → Step.Relies s (resolve x) fun r t => t.Offers r

variable {resolve : Resolver}

theorem relies_target (hr : Reliably resolve) (hs : s.Reliable) (d : Die) :
    Relies s (i.target resolve d) (fun r t => t.Offers r) fun _ => True := by
  refine relies_read_bind hs trivial fun reference _ => ?_
  cases reference with
  | some x => exact relies_lift (hr s x hs)
  | none => exact relies_map (relies_registerType hs _ _).lax

theorem makes_onTarget {f : Ordinal → Attempt Ordinal} (hr : Reliably resolve) (hs : s.Reliable)
    (d : Die) (hf : ∀ o t, t.Reliable → Relies t (f o) (fun o' u => u.Knows o') fun _ => True) :
    Makes s (i.onTarget resolve d f) fun _ => True := by
  refine relies_bind (relies_target hr hs d) fun r t ht _ _ => ?_
  cases r with
  | resolved o => exact makes_settled (hf o t ht)
  | inProgress => exact relies_pure ht trivial
  | missing => exact relies_pure ht trivial

theorem relies_derivedFrom (hs : s.Reliable) (d : Die) (o : Ordinal) :
    Relies s (i.derivedFrom d o) (fun o' t => t.Knows o') fun _ => True := by
  refine relies_ask_bind hs (fun _ _ => trivial) fun name _ => ?_
  split <;> exact (relies_registerType hs _ _).lax

theorem relies_functionTo (hs : s.Reliable) (o : Ordinal) :
    Relies s (i.functionTo o) (fun o' t => t.Knows o') fun _ => True :=
  relies_ask_bind hs (fun _ _ => trivial) fun _ _ => (relies_registerType hs _ _).lax

theorem makes_arrayType (hr : Reliably resolve) (hs : s.Reliable) (d : Die) :
    Makes s (i.arrayType resolve d) fun _ => True := by
  unfold arrayType
  split
  · have hthrow : Relies s (throw (.debugInfo (.missingAttribute .type)) : Attempt PUnit)
        (fun _ _ => False) fun _ => True := relies_throw hs trivial
    exact relies_bind hthrow fun _ _ _ _ h => h.elim
  · exact makes_onTarget hr hs d fun _ _ ht =>
      relies_ask_bind ht (fun _ _ => trivial) fun _ _ => (relies_registerType ht _ _).lax

theorem knows_of_sameAlias? {name : String} {target existing : Ordinal}
    (h : i.sameAlias? s name target = .ok (some existing)) : s.Knows existing := by
  rw [sameAlias?_eq] at h
  split at h
  · cases h
  · rename_i found shape x haliased
    obtain ⟨_, hnamed, haliased⟩ := Option.bind_eq_some_iff.mp haliased
    obtain ⟨_, -, haliased⟩ := Option.bind_eq_some_iff.mp haliased
    split at haliased
    · obtain ⟨_, -, haliased⟩ := Option.bind_eq_some_iff.mp haliased
      obtain ⟨_, -, haliased⟩ := Option.bind_eq_some_iff.mp haliased
      obtain ⟨_, -, haliased⟩ := Option.bind_eq_some_iff.mp haliased
      cases haliased
      obtain ⟨_, -, h⟩ := Except.bind_eq_ok h
      obtain ⟨same, -, h⟩ := Except.bind_eq_ok h
      cases same with
      | true =>
        cases h
        exact Session.knows_of_named hnamed
      | false => cases h
    · cases haliased

theorem makes_typedefType (hr : Reliably resolve) (hs : s.Reliable) (d : Die) :
    Makes s (i.typedefType resolve d) fun _ => True := by
  refine relies_read_bind hs trivial fun name _ => makes_onTarget hr hs d fun o t ht => ?_
  refine relies_get_bind (relies_read_bind ht trivial fun existing hexisting => ?_)
  split
  · exact relies_pure ht (knows_of_sameAlias? hexisting)
  · exact relies_ask_bind ht (fun _ _ => trivial) fun _ _ => (relies_registerType ht _ _).lax

/-! ## Declarations and enumerations -/

theorem knows_of_definitionNamed? {name : String} (h : definitionNamed? s.host name = some o) :
    s.Knows o := by
  obtain ⟨_, hnamed, h⟩ := Option.bind_eq_some_iff.mp h
  obtain ⟨_, -, h⟩ := Option.bind_eq_some_iff.mp h
  split at h
  case h_4 => cases h
  all_goals
    cases h
    exact Session.knows_of_named hnamed

theorem makes_declaredType (hs : s.Reliable) (d : Die) :
    Makes s (i.declaredType d) fun t => t.host = s.host := by
  refine relies_read_bind hs rfl fun name _ => relies_get_bind ?_
  change Makes s (i.declaredAs name (definitionNamed? s.host name)) _
  cases hknown : definitionNamed? s.host name with
  | some o => exact relies_pure hs (knows_of_definitionNamed? hknown)
  | none => exact makes_settled (relies_registerType hs _ _)

theorem relies_dismissAll {err : Session → Prop} (hs : s.Reliable) (l : List Die) :
    Relies s
      (forIn l PUnit.unit fun c _ => do
        liftM (Step.updateCache (·.markUseless c.offset))
        pure (ForInStep.yield PUnit.unit))
      (fun _ t => t.host = s.host) err := by
  induction l generalizing s with
  | nil => exact relies_pure hs rfl
  | cons c rest ih =>
    rw [List.forIn_cons, bind_assoc]
    refine relies_bind (relies_lift (Step.relies_markUseless hs _)) fun _ t ht _ hhost => ?_
    rw [pure_bind]
    exact (ih ht).imp (fun _ _ h => h.trans hhost) fun _ h => h

theorem relies_enumWidth (hs : s.Reliable) (d : Die) :
    Relies s (enumWidth d)
      (fun width t => t.host = s.host ∧ ∃ size, d.byteSize = .ok size ∧
        width.toUInt64 = if size ∈ [1, 2, 4, 8, 16] then size else 4)
      fun t => t.host = s.host := by
  refine relies_read_bind hs rfl fun size hsize => ?_
  unfold enumWidth?
  split
  · rename_i width hwidth
    split at hwidth
    · rename_i hmem
      cases hwidth
      refine relies_pure hs ⟨rfl, size, hsize, ?_⟩
      rw [if_pos hmem]
      simp only [List.mem_cons, List.not_mem_nil, or_false] at hmem
      rcases hmem with rfl | rfl | rfl | rfl | rfl <;> rfl
    · cases hwidth
  · rename_i hwidth
    split at hwidth
    · cases hwidth
    · rename_i hmem
      refine relies_bind (relies_lift (Step.relies_warn hs _)) fun _ _ ht _ hhost => ?_
      exact relies_pure ht ⟨hhost, size, hsize, by rw [if_neg hmem]; rfl⟩

/-- The enumeration that an entry gets, by its type and the database that is left: one that has just
the constants of the entry, or else a new one. -/
inductive Enlists (s : Session) (d : Die) (width : UInt8) (ps : List (String × UInt64)) :
    Ordinal → Database → Prop
  | found {id : EnumId} {e : EnumDef} :
      FindsEnum s d width id → s.host.database.enumDef? id = some e → e.constants.Perm ps →
      Enlists s d width ps e.ordinal s.host.database
  | added {name : Option String} {taken : String} {o : Ordinal} {db : Database} :
      LacksEnum s d width name →
      s.host.database.Reservation .enum (.enum ⟨s.host.database.enums.size⟩) name taken o db →
      Enlists s d width ps o { db with
        enums := db.enums.push ⟨taken, width, o, ps.eraseDupsBy (·.1 == ·.1)⟩ }

theorem FindsEnum.known (hs : s.Reliable) {width : UInt8} {id : EnumId}
    {ps : List (String × UInt64)} (hps : d.enumerators.mapM Die.constant = .ok ps)
    (h : FindsEnum s d width id) :
    ∃ e, s.host.database.enumDef? id = some e ∧ e.constants.Perm ps := by
  have hdescribes := h.describes
  unfold describesEnum Host.enumDef? at hdescribes
  rw [hs.accepts, if_neg Bool.false_ne_true] at hdescribes
  split at hdescribes
  · cases hdescribes
  · rename_i e he
    refine ⟨e, he, ?_⟩
    split at hdescribes
    · rw [Listing.ofEnumDie, Listing.ofReadings_eq hps] at hdescribes
      exact (Listing.agrees_iff_perm (hs.distinct he)).mp hdescribes
    · cases hdescribes

/-- What adding an enumeration with its constants leaves. -/
theorem addConstants_addEnum? {h h' : Host} {name : Option String} {width : UInt8} {id : EnumId}
    (hadd : h.addEnum? name width = some (id, h')) (ps : List (String × UInt64)) :
    ∃ taken o db,
      h.database.Reservation .enum (.enum ⟨h.database.enums.size⟩) name taken o db ∧
      let e : EnumDef := ⟨taken, width, o, ps.eraseDupsBy (·.1 == ·.1)⟩
      addConstants id ps h' = { h with database := { db with enums := db.enums.push e } } ∧
        (addConstants id ps h').database.enumDef? id = some e := by
  obtain ⟨_, hdb, rfl⟩ := Host.addEnum?_eq_some hadd
  obtain ⟨⟨taken, o, db⟩, hreserve, hpush⟩ := Option.bind_eq_some_iff.mp hdb
  obtain ⟨-, henums, -⟩ := Database.reserve?_eq_some hreserve
  cases hpush
  let pushed (e : EnumDef) : Host :=
    { h with database := { db with enums := db.enums.push e } }
  have hnew (e : EnumDef) : (pushed e).database.enumDef? ⟨h.database.enums.size⟩ = some e := by
    simp [pushed, Database.enumDef?, ← henums]
  have heq : addConstants ⟨h.database.enums.size⟩ ps (pushed ⟨taken, width, o, []⟩) =
      pushed ⟨taken, width, o, ps.eraseDupsBy (·.1 == ·.1)⟩ := by
    rw [addConstants_eq (hnew _), extended_nil_left]
    simp only [pushed, ← henums, setIfInBounds_push_size]
  refine ⟨taken, o, db, Database.reservation hreserve, heq, ?_⟩
  rw [heq]
  exact hnew _

theorem relies_enumOrdinal (hs : s.Reliable) {id : EnumId} {e : EnumDef}
    (he : s.host.database.enumDef? id = some e) {ok : Outcome → Session → Prop}
    {err : Session → Prop} (h : ok (settled e.ordinal) s) :
    Relies s (settled <$> ask (·.enumOrdinal id)) ok err := by
  have hordinal : s.enumOrdinal id = .ok e.ordinal := by
    simp [Session.enumOrdinal, Host.enumDef?, hs.accepts, he]
  rw [map_eq_pure_bind]
  refine relies_ask_bind hs (fun _ herror => ?_) fun o ho => relies_pure hs ?_
  · cases hordinal.symm.trans herror
  · cases hordinal.symm.trans ho
    exact h

/-- The enumeration of an entry is found or added, and an error leaves the host as it was. -/
theorem relies_enumeration (hs : s.Reliable) (width : UInt8) {ps : List (String × UInt64)}
    (hps : d.enumerators.mapM Die.constant = .ok ps) :
    Relies s (i.enumFor d width >>= fun (id, existed) => do
        if !existed then Step.setHost (addConstants id ps (← get).host)
        settled <$> ask (·.enumOrdinal id))
      (fun out t => ∃ o db, out = settled o ∧ t.Knows o ∧ Enlists s d width ps o db ∧
        t.host = { s.host with database := db })
      fun t => t.host = s.host := by
  have hlookup := enumLookup_enumFor (i := i) d width s
  generalize hrun : (i.enumFor d width).run.run s = result at hlookup
  cases hlookup with
  | @found id hfinds =>
    obtain ⟨e, he, hperm⟩ := hfinds.known hs hps
    refine relies_run_bind hrun (.refl _) (relies_enumOrdinal hs he ?_)
    exact ⟨_, _, rfl, ⟨_, hs.coherent.enums he⟩, .found hfinds he hperm, rfl⟩
  | @added name id h hlacks hadd =>
    obtain ⟨taken, o, db, hreservation, hhost, hget⟩ := addConstants_addEnum? hadd ps
    obtain ⟨e, hnew⟩ := newEnum hs.coherent hadd ps
    have hadded := Host.extends_addEnum? hs.coherent hadd
    have hfilled : h.Extends (addConstants id ps h) := (grows_addConstants id ps).extends_
    let t : Session := { s with host := addConstants id ps h }
    have ht : t.Reliable := hs.later (hadded.trans hfilled) hnew.retains.distinct .inl
    refine relies_run_bind hrun hadded ?_
    have hset : Step.Relies { s with host := h } (Step.setHost (addConstants id ps h)) fun _ u =>
        u = t := ⟨⟨⟩, t, rfl, ht, hfilled, rfl⟩
    refine relies_get_bind (relies_bind (relies_lift hset) ?_)
    rintro _ _ - - rfl
    refine relies_enumOrdinal ht hget ?_
    exact ⟨o, _, rfl, ⟨_, ht.coherent.enums hget⟩, .added hlacks hreservation, hhost⟩
  | @failed e =>
    refine ⟨.error e, s, ?_, hs, .refl _, rfl⟩
    rw [ExceptT.run_bind, StateT.run_bind, hrun]
    rfl

/-- Nothing but the host decides which enumeration an entry gets. -/
theorem Enlists.congr (h : t.host = s.host) {width : UInt8} {ps : List (String × UInt64)}
    {db : Database} (hd : Enlists t d width ps o db) : Enlists s d width ps o db := by
  have hreaches {name : String} {k : Nat} (hk : (enumRegistry d width).Reaches t name k) :
      (enumRegistry d width).Reaches s name k := fun j hj => by
    simpa only [Registry.Passes, enumRegistry, h] using hk j hj
  cases hd with
  | @found id e hfinds he hperm =>
    refine h ▸ .found ⟨h ▸ hfinds.describes, fun name hname => ?_, ?_⟩ (h ▸ he) hperm
    · obtain ⟨k, hk, hfind⟩ := hfinds.named name hname
      exact ⟨k, hreaches hk, h ▸ hfind⟩
    · exact fun hname first c hfirst hc => h ▸ hfinds.unnamed hname first c hfirst hc
  | added hlacks hreservation =>
    refine .added ⟨fun name hname => ?_, ?_⟩ (h ▸ hreservation)
    · obtain ⟨k, hk, heq⟩ := hlacks.named name hname
      exact ⟨k, hreaches hk, heq⟩
    · exact fun hname => h ▸ hlacks.unnamed hname

/-- What the handler of an enumeration comes to, if it succeeds.  The enumeration is as wide as the
entry says, or takes four bytes. -/
def Enumerated (s : Session) (d : Die) (out : Outcome) (t : Session) : Prop :=
  ∃ size ps width o db, d.byteSize = .ok size ∧ d.enumerators.mapM Die.constant = .ok ps ∧
    width.toUInt64 = (if size ∈ [1, 2, 4, 8, 16] then size else 4) ∧
    Enlists s d width ps o db ∧ out = settled o ∧ t.host = { s.host with database := db }

theorem relies_enumType (hs : s.Reliable) (d : Die) :
    Relies s (i.enumType d)
      (fun out t => t.Offers out.toRef ∧ (d.isDeclaration = .ok false → Enumerated s d out t))
      fun t => t.host = s.host := by
  refine relies_bind (relies_dismissAll hs _) fun _ s₁ hs₁ _ hhost₁ => ?_
  refine relies_read_bind hs₁ hhost₁ fun declared hdeclared => ?_
  cases declared with
  | true =>
    refine (makes_declaredType hs₁ d).imp (fun out t h => ⟨h, fun hfalse => ?_⟩) fun _ h =>
      h.trans hhost₁
    cases hdeclared.symm.trans hfalse
  | false =>
    simp only [Bool.false_eq_true, if_false]
    refine relies_bind ((relies_enumWidth hs₁ d).imp (fun _ _ h => h) fun _ h => h.trans hhost₁) ?_
    rintro width s₂ hs₂ - ⟨hhost₂, size, hsize, hwidth⟩
    have hhost := hhost₂.trans hhost₁
    refine relies_read_bind hs₂ hhost fun ps hps => ?_
    refine (relies_enumeration hs₂ _ hps).imp ?_ fun _ h => h.trans hhost
    rintro _ t ⟨o, db, rfl, hknows, henlists, ht⟩
    exact ⟨hknows, fun _ => ⟨size, ps, width, o, db, hsize, hps, hwidth, henlists.congr hhost, rfl,
      hhost ▸ ht⟩⟩

/-! ## Structures and unions -/

/-- The structure of an entry is found or added, and an error leaves the host as it was. -/
theorem relies_recordFor (hs : s.Reliable) (d : Die) :
    Relies s (i.recordFor d)
      (fun found t => found.2 = true ∧ t.host = s.host ∨
        found.2 = false ∧ ∃ o, t.structOrdinal found.1 = .ok o)
      fun t => t.host = s.host := by
  have hlookup := recordLookup_recordFor (i := i) d s
  generalize hrun : (i.recordFor d).run.run s = result at hlookup
  cases hlookup with
  | found => exact ⟨_, _, hrun, hs, .refl _, .inl ⟨rfl, rfl⟩⟩
  | @added name id h hadd =>
    have he := Host.extends_addStruct? hs.coherent hadd
    have henums : h.database.enums = s.host.database.enums := by
      obtain ⟨db, hdb, rfl⟩ := Host.addStruct?_eq_some hadd
      obtain ⟨def_, hadds⟩ := Database.addsStruct hs.coherent hdb
      exact hadds.enums
    refine ⟨_, _, hrun, hs.later he (fun {id e} hd => .inl ?_) .inl, he,
      .inr ⟨rfl, structOrdinal_of_addStruct? hs.accepts hadd⟩⟩
    rwa [Database.enumDef?, henums] at hd
  | failed => exact ⟨_, _, hrun, hs, .refl _, rfl⟩

/-- A member of a type that is there can be added, or left out, without an error. -/
theorem relies_attachMember (hs : s.Reliable) (owner : UInt64) (id : StructId) (m : MemberLayout)
    (ho : s.Knows o) :
    Relies s (attachMember owner id m o) (fun _ _ => True) fun _ => False := by
  refine relies_get_bind ?_
  rcases hs.sizedLinkTo ho with ⟨type, size, hsized⟩ | hsized
  · rw [hsized]
    refine relies_get_bind ?_
    dsimp only
    cases hadd : s.host.addStructMember? id ⟨m.name, m.offset, size, type⟩ with
    | none => exact relies_lift ((Step.relies_setHost hs (.refl _) rfl).imp fun _ _ _ => trivial)
    | some h =>
      refine relies_lift ((Step.relies_setHost hs (Host.extends_addStructMember? hadd) ?_).imp
        fun _ _ _ => trivial)
      obtain ⟨db, hdb, rfl⟩ := Host.addStructMember?_eq_some hadd
      obtain ⟨def_, hadds⟩ := Database.addsMember hdb
      rw [hadds.eq]
  · rw [hsized]
    exact relies_lift ((Step.relies_warn hs _).imp fun _ _ _ => trivial)

theorem relies_addMember (hr : Reliably resolve) (hs : s.Reliable) (owner : UInt64)
    (id : StructId) (m : MemberLayout) :
    Relies s (addMember resolve owner id m) (fun _ _ => True) fun _ => False := by
  unfold addMember
  split
  · exact relies_pure hs trivial
  · rename_i x _
    refine relies_bind (relies_lift (hr s x hs)) fun r t ht _ hoffers => ?_
    cases r with
    | inProgress => exact relies_pure ht trivial
    | missing => exact relies_pure ht trivial
    | resolved o =>
      exact relies_bind (relies_attachMember ht owner id m hoffers) fun _ _ hu _ _ =>
        relies_pure hu trivial

/-- Once a structure is there, its members can be added without an error. -/
theorem relies_addMembers (hr : Reliably resolve) (hs : s.Reliable) (owner : UInt64)
    (id : StructId) (layout : List MemberLayout) :
    Relies s (addMembers resolve owner id layout) (fun _ _ => True) fun _ => False := by
  induction layout generalizing s with
  | nil => exact relies_pure hs trivial
  | cons m rest ih =>
    refine relies_bind (relies_addMember hr hs owner id m) fun _ _ ht _ _ => ?_
    exact relies_bind (ih ht) fun _ _ hu _ _ => relies_pure hu trivial

theorem makes_recordType (hr : Reliably resolve) (hs : s.Reliable) (d : Die) :
    Makes s (i.recordType resolve d) fun t => t.host = s.host := by
  refine relies_read_bind hs rfl fun declared _ => ?_
  split
  · exact makes_declaredType hs d
  · refine relies_read_bind hs rfl fun layout _ => ?_
    refine relies_bind (relies_recordFor hs d) ?_
    rintro ⟨id, existed⟩ t ht - (⟨rfl, hhost⟩ | ⟨rfl, o, ho⟩)
    · refine relies_ask_bind ht (fun _ _ => hhost) fun o ho => ?_
      exact relies_pure ht (ht.knows_of_structOrdinal ho)
    · refine relies_ask_bind ht (fun e he => nomatch ho.symm.trans he) fun o' ho' => ?_
      have hknows := ht.knows_of_structOrdinal ho'
      refine relies_bind ((relies_addMembers hr ht d.offset id layout).imp (fun _ _ h => h)
        fun _ h => h.elim) fun complete u hu he _ => relies_pure hu (hknows.mono he)

/-! ## All kinds of types -/

theorem makes_describe (hr : Reliably resolve) (hs : s.Reliable) (d : Die) :
    Makes s (i.describe resolve d) fun _ => True := by
  unfold describe
  split
  · exact makes_baseType hs d
  · exact makes_unspecifiedType hs d
  · exact (relies_enumType hs d).lax.imp (fun _ _ h => h.1) fun _ h => h
  · exact makes_onTarget hr hs d fun o _ ht => relies_derivedFrom ht d o
  · exact makes_onTarget hr hs d fun o _ ht => relies_derivedFrom ht d o
  · exact makes_onTarget hr hs d fun o _ ht => relies_derivedFrom ht d o
  · exact makes_typedefType hr hs d
  · exact makes_arrayType hr hs d
  · exact (makes_recordType hr hs d).lax
  · exact (makes_recordType hr hs d).lax
  · exact makes_onTarget hr hs d fun o _ ht => relies_functionTo ht o
  · exact relies_pure hs trivial

/-! ## Resolving -/

theorem type?_remember_cases {c : OffsetCache} {x y : UInt64} {out : Outcome} {pending : Bool}
    (h : (remember x c out).type? y = some (o, pending)) :
    c.type? y = some (o, pending) ∨ out = .type o pending := by
  cases out with
  | useless => exact .inl ((OffsetCache.type?_markUseless c x y).symm.trans h)
  | deferred => exact .inl h
  | type o' pending' =>
    rw [OffsetCache.type?_eq_some, remember, OffsetCache.get?_markType] at h
    split at h
    · cases h
      exact .inr rfl
    · exact .inl (OffsetCache.type?_eq_some.mpr h)

theorem relies_leave (hs : s.Reliable) (x : UInt64) {result : Except ImportError Outcome}
    (hoffers : s.Offers (outcomeOf result).toRef) :
    Step.Relies s (leave x result) fun out t => t.Offers out.toRef := by
  obtain ⟨stats, warnings, hrun⟩ := run_leave x result s
  refine ⟨_, _, hrun, hs.later (.refl _) .inl ?_, .refl _, hoffers⟩
  rintro y o ⟨pending, htype⟩
  rcases type?_remember_cases htype with hold | hnew
  · exact .inl ⟨pending, hold⟩
  · rw [hnew] at hoffers
    exact .inr hoffers

/-- Visits keep a session reliable, and what they find is there. -/
def Dependable (visit : Die → Step Outcome) : Prop :=
  ∀ s d, s.Reliable → Step.Relies s (visit d) fun out t => t.Offers out.toRef

theorem reliably_resolveWith {visit : Die → Step Outcome} (hv : Dependable visit) :
    Reliably (i.resolveWith visit) := by
  intro s x hs
  refine Step.relies_get_bind ?_
  split
  · rename_i o pending hget
    exact Step.relies_pure hs (hs.types ⟨pending, OffsetCache.type?_eq_some.mpr hget⟩)
  · exact Step.relies_pure hs trivial
  · split
    · exact Step.relies_pure hs trivial
    · split
      · rename_i d _
        exact Step.relies_bind (hv s d hs) fun _ _ ht _ hoffers => Step.relies_pure ht hoffers
      · refine Step.relies_bind (Step.relies_fail hs x _) fun _ t ht _ _ => ?_
        exact Step.relies_bind (Step.relies_markUseless ht x) fun _ _ hu _ _ =>
          Step.relies_pure hu trivial

theorem dependable_of_handle {levels : Nat}
    (hh : ∀ s d, s.Reliable → Step.Relies s (i.handle levels d) fun r t =>
      t.Offers (outcomeOf r).toRef) :
    Dependable (i.resolveDie levels) := by
  intro s d hs
  by_cases hnew : s.cache.get? d.offset = none ∧ d.offset ∉ s.resolving
  · have hentered : (entered s d.offset).Reliable := hs.later (.refl _) .inl .inl
    obtain ⟨r, t, hrun, ht, he, hoffers⟩ := hh (entered s d.offset) d hentered
    obtain ⟨out, u, hrun', hu, he', hoffers'⟩ := relies_leave ht d.offset hoffers
    refine ⟨out, u, ?_, hu, he.trans he', hoffers'⟩
    rw [run_resolveDie hnew.1 hnew.2, StateT.run_bind, hrun]
    exact hrun'
  · obtain ⟨out, hrun, htype⟩ := run_resolveDie_known (i := i) hnew
    refine ⟨out, s, hrun, hs, .refl _, ?_⟩
    cases out with
    | type o pending => exact hs.types ⟨pending, htype o pending rfl⟩
    | useless => trivial
    | deferred => trivial

theorem dependable_resolveDie (levels : Nat) : Dependable (i.resolveDie levels) := by
  induction levels with
  | zero => exact dependable_of_handle fun s d hs => Step.relies_pure hs trivial
  | succ levels ih =>
    refine dependable_of_handle fun s d hs => ?_
    refine Step.Relies.imp (makes_describe (reliably_resolveWith ih) hs d) fun r t hend => ?_
    cases r with
    | ok out => exact hend
    | error e => trivial

end Importer

end DebugSymbols
