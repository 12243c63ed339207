import DebugSymbols.Import.Run
import DebugSymbols.Proofs.Database.Calls
import DebugSymbols.Proofs.Import.Naming

/-!
Which ordinal a type gets that is nothing but a name and a shape.  `Database.Registers` says what
registering it comes to: the first name with some underscores more that does not belong to a type
of another shape is taken over or added, and if the limit leaves no such name, nothing happens.

Main statement: `registerType_built`.
-/

namespace DebugSymbols

variable {db db' db'' : Database} {shape : TypeShape} {name : String} {limit : Nat}

namespace Database

/-! ## Names that can be had -/

/-- The name comes to stand for a type of the shape, which it does already or which is added at
the end. -/
inductive Takes (db : Database) (shape : TypeShape) (name : String) : Ordinal → Database → Prop
  | known {o : Ordinal} :
      db.namedType? name = some o → db.numberedType? o = some ⟨name, shape⟩ →
      Takes db shape name o db
  | added :
      db.namedType? name = none →
      Takes db shape name ⟨db.types.size + 1⟩ { db with types := db.types.push ⟨name, shape⟩ }

/-- What registering a type of the shape comes to, and the database that is left.  The name may get
as many underscores as the limit says. -/
inductive Registers (db : Database) (shape : TypeShape) (name : String) (limit : Nat) :
    Except ImportError Ordinal → Database → Prop
  | first {k : Nat} {o : Ordinal} {db' : Database} :
      k ≤ limit → (∀ j < k, db.Occupied shape (underscored j name)) →
      db.Takes shape (underscored k name) o db' → Registers db shape name limit (.ok o) db'
  | exhausted :
      (∀ j ≤ limit, db.Occupied shape (underscored j name)) →
      Registers db shape name limit (.error (.nameExhausted name)) db

theorem Takes.not_occupied {o : Ordinal} (h : db.Takes shape name o db') :
    ¬ db.Occupied shape name := by
  rintro ⟨p, t, hnamed, ht, hne⟩
  cases h with
  | known hnamed' ht' =>
    rw [hnamed'] at hnamed
    cases hnamed
    rw [ht'] at ht
    cases ht
    exact hne rfl
  | added hnone =>
    rw [hnone] at hnamed
    cases hnamed

theorem Takes.unique {o o' : Ordinal} (h : db.Takes shape name o db')
    (h' : db.Takes shape name o' db'') : o = o' ∧ db' = db'' := by
  cases h with
  | known hnamed =>
    cases h' with
    | known hnamed' => exact ⟨Option.some.inj (hnamed.symm.trans hnamed'), rfl⟩
    | added hnone => simp [hnamed] at hnone
  | added hnone =>
    cases h' with
    | known hnamed' => simp [hnone] at hnamed'
    | added => exact ⟨rfl, rfl⟩

theorem Takes.extends_ {o : Ordinal} (h : db.Takes shape name o db') : db.Extends db' := by
  cases h with
  | known => exact .refl db
  | added => exact extends_push rfl rfl rfl rfl

theorem Takes.enums {o : Ordinal} (h : db.Takes shape name o db') : db'.enums = db.enums := by
  cases h with
  | known => rfl
  | added => rfl

theorem Takes.coherent {o : Ordinal} (hc : db.Coherent) (h : db.Takes shape name o db') :
    db'.Coherent := by
  cases h with
  | known => exact hc
  | added hnone => exact hc.addNamedType? (by rw [Database.addNamedType?, hnone]; rfl)

theorem Takes.numbered {o : Ordinal} (h : db.Takes shape name o db') :
    db'.numberedType? o = some ⟨name, shape⟩ := by
  cases h with
  | known _ ht => exact ht
  | added => rw [numberedType?_push rfl, if_pos rfl]

/-- Only one thing can come of it. -/
theorem Registers.unique {r r' : Except ImportError Ordinal}
    (h : db.Registers shape name limit r db') (h' : db.Registers shape name limit r' db'') :
    r = r' ∧ db' = db'' := by
  cases h with
  | first hk hbelow htakes =>
    cases h' with
    | first hl hbelow' htakes' =>
      rename_i k _ l _
      -- the first name that is not occupied is the same for both
      rcases Nat.lt_trichotomy k l with hlt | rfl | hgt
      · exact absurd (hbelow' k hlt) htakes.not_occupied
      · obtain ⟨rfl, rfl⟩ := htakes.unique htakes'
        exact ⟨rfl, rfl⟩
      · exact absurd (hbelow l hgt) htakes'.not_occupied
    | exhausted hall => exact absurd (hall _ hk) htakes.not_occupied
  | exhausted hall =>
    cases h' with
    | first hl _ htakes' => exact absurd (hall _ hl) htakes'.not_occupied
    | exhausted => exact ⟨rfl, rfl⟩

/-- A name stays occupied, as an incomplete type becomes a definition at most. -/
theorem Occupied.mono (he : db.Extends db') (hshape : ¬ shape.IsDefinition)
    (h : db.Occupied shape name) : db'.Occupied shape name := by
  obtain ⟨o, t, hnamed, ht, hne⟩ := h
  obtain ⟨t', ht', hbecomes⟩ := he.types ht
  refine ⟨o, t', he.named hnamed, ht', ?_⟩
  rintro rfl
  rcases hbecomes.shape with heq | ⟨-, hdefinition⟩
  · exact hne heq.symm
  · exact hshape hdefinition

/-- What was registered is found again in whatever becomes of the database, unless its type can be
completed. -/
theorem Registers.again {o : Ordinal} (hc : db.Coherent) (hshape : ¬ shape.IsDefinition)
    (hcomplete : shape ≠ .incomplete) (h : db.Registers shape name limit (.ok o) db')
    (he : db'.Extends db'') : db''.Registers shape name limit (.ok o) db'' := by
  cases h with
  | @first k _ _ hk hbelow htakes =>
    have hnumbered := htakes.numbered
    have hnamed := (htakes.coherent hc).named hnumbered
    exact .first hk (fun j hj => (hbelow j hj).mono (htakes.extends_.trans he) hshape)
      (.known (he.named hnamed) (he.type_eq hnumbered hcomplete))

end Database

/-! ## Registering -/

variable {s : Session}

theorem registers_registerType (i : Importer) (hopen : ∀ c, s.host.refuses c = false)
    (name : String) (shape : TypeShape) :
    ∃ r db, (i.registerType name shape).run.run s =
        (r, { s with host := { s.host with database := db } }) ∧
      s.host.database.Registers shape name i.config.maxNameSuffixes r db := by
  have hoccupied {k : Nat} (hreaches : (shapeRegistry shape).Reaches s name k) :
      ∀ j < k, s.host.database.Occupied shape (underscored j name) :=
    fun j hj => (passes_shapeRegistry_iff hopen).mp (hreaches j hj)
  let P (result : Except ImportError (Ordinal × Bool) × Session) : Prop :=
    ∃ r db, result = (r, { s with host := { s.host with database := db } }) ∧
      s.host.database.Registers shape name i.config.maxNameSuffixes (r.map (·.1)) db
  have hchoice : P (((shapeRegistry shape).reuseOrAdd i.config name).run.run s) := by
    refine Registry.run_reuseOrAdd ?_ ?_ ?_ fun _ _ _ _ hfits => nomatch hfits
    · intro o k hk hreaches hfind hfits
      refine ⟨.ok (o, true), s.host.database, rfl, .first hk (hoccupied hreaches) ?_⟩
      obtain ⟨shape', ht⟩ := Database.numberedType?_of_named hfind
      have hsame : shape' = shape := by
        simpa [shapeRegistry, Host.numberedType?, hopen, ht] using hfits
      exact .known hfind (hsame ▸ ht)
    · intro o h k hk hreaches _ hadd
      obtain ⟨db, hdb, rfl⟩ := Host.addNamedType?_eq_some hadd
      obtain ⟨hnone, rfl, rfl⟩ := Database.addNamedType?_eq_some hdb
      exact ⟨.ok (_, false), _, rfl, .first hk (hoccupied hreaches) (.added hnone)⟩
    · intro hall
      exact ⟨.error _, s.host.database, rfl,
        .exhausted fun j hj => hoccupied hall j (Nat.lt_succ_of_le hj)⟩
  obtain ⟨r, db, hrun, hregisters⟩ := hchoice
  refine ⟨_, db, ?_, hregisters⟩
  unfold Importer.registerType
  rw [ExceptT.run_map, StateT.run_map, hrun]
  cases r <;> rfl

/-- Registering a type in a database that was built by calls gives the first name that can be had
its ordinal, and changes nothing else than that this type is added at most; or it fails and
changes nothing.  Unless the type may be completed, it has this ordinal for good. -/
theorem registerType_built (i : Importer) (pointerSize : UInt64) (calls : List Call) (s : Session)
    (name : String) (shape : TypeShape) (hshape : ¬ shape.IsDefinition) :
    let h := Host.built pointerSize calls
    (∀ r t, (i.registerType name shape).run.run { s with host := h } = (r, t) ↔
      ∃ db, h.database.Registers shape name i.config.maxNameSuffixes r db ∧
        t = { s with host := { h with database := db } }) ∧
    (shape ≠ .incomplete → ∀ o t,
      (i.registerType name shape).run.run { s with host := h } = (.ok o, t) →
      ∀ (later : List Call) (u : Session), u.host = t.host.performAll later →
        (i.registerType name shape).run.run u = (.ok o, u)) := by
  intro h
  have hc := Host.coherent_built pointerSize calls
  have hopen := Host.refuses_built pointerSize calls
  have hrun : ∀ r t, (i.registerType name shape).run.run { s with host := h } = (r, t) ↔
      ∃ db, h.database.Registers shape name i.config.maxNameSuffixes r db ∧
        t = { s with host := { h with database := db } } := by
    intro r t
    obtain ⟨r', db', heq, hregisters⟩ :=
      registers_registerType (s := { s with host := h }) i hopen name shape
    rw [heq]
    constructor
    · rintro ⟨⟩
      exact ⟨db', hregisters, rfl⟩
    · rintro ⟨db, hregisters', rfl⟩
      obtain ⟨rfl, rfl⟩ := hregisters.unique hregisters'
      rfl
  refine ⟨hrun, fun hcomplete o t hok later u hu => ?_⟩
  obtain ⟨db, hregisters, rfl⟩ := (hrun _ _).mp hok
  have hcoherent : db.Coherent := by
    cases hregisters with
    | first _ _ htakes => exact htakes.coherent hc
  have hlater := Host.extends_performAll (h := { h with database := db }) hcoherent later
  rw [← hu] at hlater
  have hopen' : ∀ c, u.host.refuses c = false := fun c => by
    rw [hlater.refuses]
    exact hopen c
  obtain ⟨r', db', heq, hregisters'⟩ := registers_registerType i hopen' name shape
  obtain ⟨rfl, rfl⟩ :=
    hregisters'.unique (hregisters.again hc hshape hcomplete hlater.database)
  exact heq

/-- With up to two underscores a type called `e` gets the last name it can have, as the others
belong to void and to a declaration.  It keeps this name once the declaration is completed. -/
theorem registerType_built_crowded :
    let i := Importer.mk ⟨#[]⟩ { maxNameSuffixes := 2 }
    let h := Host.built 4 [.addNamedType "e" .void, .addNamedType "e_" .incomplete]
    let int : TypeShape := .int .w32 true false
    let db := { h.database with types := h.database.types.push ⟨"e__", int⟩ }
    let t := Importer.newSession { h with database := db }
    let u := Importer.newSession (t.host.performAll [.addStruct (some "e_") false])
    h.database.Registers int "e" 2 (.ok ⟨3⟩) db ∧
      (i.registerType "e" int).run.run (Importer.newSession h) = (.ok ⟨3⟩, t) ∧
      u.host.database.numberedType? ⟨2⟩ = some ⟨"e_", .struct ⟨0⟩⟩ ∧
      (i.registerType "e" int).run.run u = (.ok ⟨3⟩, u) := by
  intro i h int db t u
  have hbuilt := registerType_built i 4
    [.addNamedType "e" .void, .addNamedType "e_" .incomplete] (Importer.newSession h) "e" int id
  have hoccupied : ∀ j < 2, h.database.Occupied int (underscored j "e")
    | 0, _ => ⟨⟨1⟩, ⟨"e", .void⟩, by decide +kernel, by decide +kernel, nofun⟩
    | 1, _ => ⟨⟨2⟩, ⟨"e_", .incomplete⟩, by decide +kernel, by decide +kernel, nofun⟩
  have hfree : h.database.namedType? "e__" = none := by decide +kernel
  have hsize : h.database.types.size = 2 := by decide +kernel
  have hname : underscored 2 "e" = "e__" := by decide +kernel
  have htakes : h.database.Takes int "e__" ⟨h.database.types.size + 1⟩ db := .added hfree
  rw [hsize, ← hname] at htakes
  have hregisters : h.database.Registers int "e" 2 (.ok ⟨3⟩) db :=
    .first (Nat.le_refl 2) hoccupied htakes
  have hrun : (i.registerType "e" int).run.run (Importer.newSession h) = (.ok ⟨3⟩, t) :=
    (hbuilt.1 _ _).mpr ⟨db, hregisters, rfl⟩
  exact ⟨hregisters, hrun, by decide +kernel, hbuilt.2 nofun _ _ hrun _ u rfl⟩

end DebugSymbols
