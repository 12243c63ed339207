import DebugSymbols.Proofs.Import.Careful

/-!
Where local variables go.  The locations of a variable are tried one after the other: some add it
to the variables of the function (`Adds`), and some end its placement there and then (`Ends`).
`Places` says what a run over the locations can do.  Main statement: `Places.breaksOff_iff`, a
variable is added and yet not placed just if a location that ends the placement comes after one
that adds it.
-/

namespace DebugSymbols

/-- Where a location puts a variable. -/
inductive Spot where
  | register (v : RegisterVariable)
  | stack (offset : Int64)

/-! ## Databases and sessions -/

namespace Database

/-- The function has the same variables in both databases. -/
def SameLocals (f : UInt64) (db db' : Database) : Prop :=
  db'.stackVariablesOf f = db.stackVariablesOf f ∧
    db'.registerVariablesOf f = db.registerVariablesOf f

/-- How many variables a function has. -/
def localCount (db : Database) (f : UInt64) : Nat :=
  (db.stackVariablesOf f).length + (db.registerVariablesOf f).length

theorem SameLocals.localCount {f : UInt64} {db db' : Database} (h : SameLocals f db db') :
    db'.localCount f = db.localCount f := by
  rw [Database.localCount, h.1, h.2, ← Database.localCount]

theorem Within.localCount {db db' : Database} (h : db.Within db') (f : UInt64) :
    db.localCount f ≤ db'.localCount f :=
  Nat.add_le_add (h.stack f).length_le (h.registers f).length_le

end Database

namespace Session

/-- Only variables and warnings differ. -/
structure SameButLocals (s t : Session) : Prop where
  cache : t.cache = s.cache
  stats : t.stats = s.stats
  types : s.host.SameTypes t.host
  within : s.host.Within t.host

theorem SameButLocals.refl (s : Session) : s.SameButLocals s :=
  ⟨rfl, rfl, ⟨rfl, rfl, rfl, rfl, rfl⟩, .refl _⟩

theorem SameButLocals.trans {s t u : Session} (h : s.SameButLocals t) (h' : t.SameButLocals u) :
    s.SameButLocals u where
  cache := h'.cache.trans h.cache
  stats := h'.stats.trans h.stats
  types := ⟨h'.types.refuses.trans h.types.refuses, h'.types.pointerSize.trans h.types.pointerSize,
    h'.types.types.trans h.types.types, h'.types.structs.trans h.types.structs,
    h'.types.enums.trans h.types.enums⟩
  within := h.within.trans h'.within

theorem SameButLocals.numberedType? {s t : Session} (h : s.SameButLocals t) (o : Ordinal) :
    t.host.numberedType? o = s.host.numberedType? o :=
  h.types.numberedType? o

end Session

namespace Importer

/-! ## What a location does -/

/-- The place for a variable of the name that a location tells, if any. -/
def spot? (i : Importer) (frame : Frame) (name : String) (l : Location) : Option Spot :=
  match l.single? with
  | some (.register number) =>
    match l.range, i.config.machine.registerName number with
    | some range, some register => some (.register ⟨range, register, name⟩)
    | _, _ => none
  | some (.registerOffset number offset) =>
    if number = i.config.machine.framePointer then some (.stack offset) else none
  | some (.frameOffset operand) => (frame.base.stackOffset? l.range operand).map .stack
  | _ => none

/-- A variable of the name is on the stack of the function. -/
def OnStack (frame : Frame) (name : String) (s : Session) : Prop :=
  (s.host.stackVariable? frame.function.start name).isSome = true

/-- The type of the variable cannot be told: the reference to it is malformed, or the database
does not know the type that it leads to. -/
def TypeLost (d : Die) (s : Session) : Prop :=
  (∃ e, d.reference? .type = .error e) ∨
    ∃ offset o pending, d.reference? .type = .ok (some offset) ∧
      s.cache.type? offset = some (o, pending) ∧ s.host.numberedType? o = none

/-- The location adds the variable to those of the function. -/
def Adds (i : Importer) (frame : Frame) (d : Die) (name : String) (s : Session) (l : Location) :
    Prop :=
  (∃ v, i.spot? frame name l = some (.register v)) ∨
    (∃ offset, i.spot? frame name l = some (.stack offset)) ∧ ¬ OnStack frame name s ∧
      ¬ TypeLost d s

/-- The location ends the placement of the variable, and what comes after it does not count: it is
a fixed address, or one on the stack for a variable whose type cannot be told. -/
def Ends (i : Importer) (frame : Frame) (d : Die) (name : String) (s : Session) (l : Location) :
    Prop :=
  (∃ address, l.single? = some (.address address)) ∨
    (∃ offset, i.spot? frame name l = some (.stack offset)) ∧ ¬ OnStack frame name s ∧
      TypeLost d s

/-- A location that is come to adds the variable, and one after it ends the placement. -/
def BreaksOff (i : Importer) (frame : Frame) (d : Die) (name : String) (s : Session)
    (locations : List Location) : Prop :=
  ∃ before l after, locations = before ++ l :: after ∧
    (∀ b ∈ before, ¬ i.Ends frame d name s b) ∧ i.Adds frame d name s l ∧
      ∃ e ∈ after, i.Ends frame d name s e

variable {i : Importer} {frame : Frame} {d : Die} {name : String} {s t : Session} {l : Location}
  {rest : List Location}

theorem spot?_address {address : UInt64} (h : l.single? = some (.address address)) :
    i.spot? frame name l = none := by
  simp [spot?, h]

theorem Adds.not_ends (h : i.Adds frame d name s l) : ¬ i.Ends frame d name s l := by
  rintro (⟨address, haddress⟩ | ⟨⟨offset, hspot⟩, -, hlost⟩)
  · have hnone : i.spot? frame name l = none := spot?_address haddress
    obtain ⟨v, hspot⟩ | ⟨⟨offset, hspot⟩, -⟩ := h <;> cases hnone.symm.trans hspot
  · obtain ⟨v, hspot'⟩ | ⟨-, -, htold⟩ := h
    · cases hspot.symm.trans hspot'
    · exact htold hlost

theorem not_breaksOff_nil : ¬ i.BreaksOff frame d name s [] := by
  rintro ⟨before, l, after, heq, -⟩
  cases before <;> cases heq

theorem breaksOff_cons :
    i.BreaksOff frame d name s (l :: rest) ↔
      i.Adds frame d name s l ∧ (∃ e ∈ rest, i.Ends frame d name s e) ∨
        ¬ i.Ends frame d name s l ∧ i.BreaksOff frame d name s rest := by
  constructor
  · rintro ⟨before, l', after, heq, hbefore, hadds, hends⟩
    cases before with
    | nil =>
      cases heq
      exact .inl ⟨hadds, hends⟩
    | cons b before =>
      cases heq
      exact .inr ⟨hbefore l (by simp), before, l', after, rfl,
        fun b hb => hbefore b (by simp [hb]), hadds, hends⟩
  · rintro (⟨hadds, hends⟩ | ⟨hgoes, before, l', after, rfl, hbefore, hadds, hends⟩)
    · exact ⟨[], l, rest, rfl, nofun, hadds, hends⟩
    · exact ⟨l :: before, l', after, rfl, List.forall_mem_cons.mpr ⟨hgoes, hbefore⟩, hadds, hends⟩

theorem BreaksOff.exists_ends {locations : List Location}
    (h : i.BreaksOff frame d name s locations) : ∃ e ∈ locations, i.Ends frame d name s e := by
  obtain ⟨before, l, after, rfl, -, -, e, he, hends⟩ := h
  exact ⟨e, by simp [he], hends⟩

theorem BreaksOff.two_le {locations : List Location} (h : i.BreaksOff frame d name s locations) :
    2 ≤ locations.length := by
  obtain ⟨before, l, after, rfl, -, -, e, he, -⟩ := h
  have := List.length_pos_of_mem he
  simp only [List.length_append, List.length_cons]
  omega

/-- The placement of a variable that has a name breaks off after it was added. -/
def BrokenOff (i : Importer) (frame : Frame) (d : Die) (s : Session) : Prop :=
  ∃ name locations, d.name? = .ok (some name) ∧
    d.locations? .location = .ok (some locations) ∧ i.BreaksOff frame d name s locations

/-! ## What can happen to a variable -/

/-- The variable was given up before the end of its locations. -/
def GaveUp (outcome : Except ImportError Placement) : Prop :=
  outcome = .ok .static ∨ ∃ e, outcome = .error e

/-- The function has one more variable now, and it is on the stack only if its type can be told. -/
structure Gains (frame : Frame) (d : Die) (s t : Session) : Prop where
  same : s.SameButLocals t
  count : t.host.database.localCount frame.function.start =
    s.host.database.localCount frame.function.start + 1
  stack : ¬ TypeLost d s ∨ ∀ name, OnStack frame name t ↔ OnStack frame name s

/-- What going over the locations of a variable can do, given whether it was placed before. -/
inductive Places (i : Importer) (frame : Frame) (d : Die) (name : String) :
    Bool → List Location → Session → Except ImportError Placement × Session → Prop
  | done {placed : Bool} {s : Session} :
      Places i frame d name placed [] s (.ok (if placed then .placed else .skipped), s)
  | ends {placed : Bool} {l : Location} {rest : List Location} {s : Session}
      {outcome : Except ImportError Placement} :
      i.Ends frame d name s l → GaveUp outcome →
      Places i frame d name placed (l :: rest) s (outcome, s)
  | passes {placed : Bool} {l : Location} {rest : List Location} {s : Session}
      {out : Except ImportError Placement × Session} (found : Bool) :
      ¬ i.Ends frame d name s l → ¬ i.Adds frame d name s l →
      Places i frame d name (placed || found) rest s out →
      Places i frame d name placed (l :: rest) s out
  | adds {placed : Bool} {l : Location} {rest : List Location} {s t : Session}
      {out : Except ImportError Placement × Session} :
      i.Adds frame d name s l → Gains frame d s t → Places i frame d name true rest t out →
      Places i frame d name placed (l :: rest) s out

variable {placed : Bool} {locations : List Location} {out : Except ImportError Placement × Session}

theorem TypeLost.congr (h : s.SameButLocals t) : TypeLost d t ↔ TypeLost d s := by
  unfold TypeLost
  simp only [h.cache, h.numberedType?]

/-- What ends the placement is the same after a variable was added. -/
theorem Gains.ends_iff (h : Gains frame d s t) :
    i.Ends frame d name t l ↔ i.Ends frame d name s l := by
  unfold Ends
  rw [TypeLost.congr h.same]
  -- A variable on the stack is new only if its type could be told, and then no place on the stack
  -- ends anything.
  obtain htold | hstack := h.stack
  · simp only [htold, and_false]
  · rw [hstack]

theorem Places.same (h : i.Places frame d name placed locations s out) : s.SameButLocals out.2 := by
  induction h with
  | done | ends => exact .refl _
  | passes _ _ _ _ ih => exact ih
  | adds _ hgains _ ih => exact hgains.same.trans ih

theorem Places.gaveUp_iff (h : i.Places frame d name placed locations s out) :
    GaveUp out.1 ↔ ∃ e ∈ locations, i.Ends frame d name s e := by
  induction h with
  | done =>
    rename_i placed s
    cases placed <;> simp [GaveUp]
  | ends hends hgave => exact iff_of_true hgave ⟨_, by simp, hends⟩
  | passes _ hgoes _ _ ih => rw [ih, List.exists_mem_cons_iff, or_iff_right hgoes]
  | adds hadds hgains _ ih =>
    simp only [ih, hgains.ends_iff]
    rw [List.exists_mem_cons_iff, or_iff_right hadds.not_ends]

/-- Once placed, a variable stays placed unless it is given up. -/
theorem Places.placed_iff (h : i.Places frame d name true locations s out) :
    out.1 = .ok .placed ↔ ¬ GaveUp out.1 := by
  generalize hplaced : true = placed at h
  induction h with
  | done => simp [← hplaced, GaveUp]
  | ends _ hgave =>
    refine iff_of_false ?_ (not_not.mpr hgave)
    obtain rfl | ⟨e, rfl⟩ := hgave <;> simp
  | passes _ _ _ _ ih => exact ih (by simp [← hplaced])
  | adds _ _ _ ih => exact ih rfl

/-- A variable is added and yet not placed just if a location ends its placement after another one
has added it. -/
theorem Places.breaksOff_iff (h : i.Places frame d name placed locations s out) :
    i.BreaksOff frame d name s locations ↔
      ¬ Database.SameLocals frame.function.start s.host.database out.2.host.database ∧
        out.1 ≠ .ok .placed := by
  induction h with
  | done => exact iff_of_false not_breaksOff_nil fun h => h.1 ⟨rfl, rfl⟩
  | ends hends =>
    refine iff_of_false ?_ fun h => h.1 ⟨rfl, rfl⟩
    rw [breaksOff_cons]
    rintro (⟨hadds, -⟩ | ⟨hgoes, -⟩)
    · exact hadds.not_ends hends
    · exact hgoes hends
  | passes _ hgoes hleaves _ ih =>
    rw [breaksOff_cons, ← ih]
    simp only [hgoes, hleaves, false_and, false_or, not_false_eq_true, true_and]
  | @adds _ l rest s t out hadds hgains hrest _ =>
    -- What was added stays, so all that matters is whether the placement ends later on.
    have hmore : ¬ Database.SameLocals frame.function.start s.host.database
        out.2.host.database := fun hsame => by
      have hcount := hgains.count
      have hlast := hrest.same.within.localCount frame.function.start
      rw [hsame.localCount] at hlast
      omega
    have hgave : out.1 ≠ .ok .placed ↔ ∃ e ∈ rest, i.Ends frame d name s e := by
      rw [Ne, hrest.placed_iff, not_not, hrest.gaveUp_iff]
      simp only [hgains.ends_iff]
    rw [breaksOff_cons, hgave, and_iff_right hmore, and_iff_right hadds]
    exact or_iff_left_of_imp fun h => h.2.exists_ends

/-! ## Runs -/

/-- A variable gets a place. -/
def putAt (frame : Frame) (d : Die) (name : String) : Option Spot → Attempt Bool
  | none => return false
  | some (.register v) => do
    match (← get).host.addRegisterVariable? frame.function.start v with
    | some h =>
      Step.setHost h
      return true
    | none => return false
  | some (.stack offset) => putOnStack frame d name offset

theorem placeAt_eq_putAt {atom : LocationAtom} (h : l.single? = some atom) :
    i.placeAt frame d name l.range atom = putAt frame d name (i.spot? frame name l) := by
  unfold placeAt spot?
  rw [h]
  cases atom with
  | register number =>
    simp only [holdInRegister]
    cases l.range <;> cases i.config.machine.registerName number <;> rfl
  | registerOffset number offset =>
    dsimp only
    split <;> rfl
  | frameOffset operand =>
    dsimp only
    cases frame.base.stackOffset? l.range operand <;> rfl
  | _ => rfl

/-- What looking for the type of a variable ends with, and the session it leaves. -/
inductive TypeTold (d : Die) (s : Session) :
    Except ImportError (Option (TypeLink × UInt64)) × Session → Prop
  | lost {e : ImportError} : TypeLost d s → TypeTold d s (.error e, s)
  | told {sized : Option (TypeLink × UInt64)} {warnings : Array Warning} :
      ¬ TypeLost d s → TypeTold d s (.ok sized, { s with warnings })

theorem typeLost_iff {offset : UInt64} {o : Ordinal} {pending : Bool}
    (hreference : d.reference? .type = .ok (some offset))
    (htype : s.cache.type? offset = some (o, pending)) :
    TypeLost d s ↔ s.host.numberedType? o = none := by
  constructor
  · rintro (⟨e, he⟩ | ⟨offset', o', pending', hreference', htype', hnumbered⟩)
    · cases hreference.symm.trans he
    · cases hreference.symm.trans hreference'
      cases htype.symm.trans htype'
      exact hnumbered
  · exact fun hnumbered => .inr ⟨offset, o, pending, hreference, htype, hnumbered⟩

theorem sizedLinkTo_of_none {o : Ordinal} (h : s.host.numberedType? o = none) :
    s.sizedLinkTo o = .error (.unknownOrdinal o) := by
  unfold Session.sizedLinkTo Session.linkTo
  rw [h]
  rfl

theorem typeTold_knownType (d : Die) (s : Session) : TypeTold d s ((knownType d).run.run s) := by
  refine run_read_bind (fun reference hreference => ?_) fun e he => .lost (.inl ⟨e, he⟩)
  cases reference with
  | none => exact .told (by simp [TypeLost, hreference])
  | some offset =>
    rw [Attempt.run_get_bind]
    cases htype : s.cache.type? offset with
    | none => exact .told (by simp [TypeLost, hreference, htype])
    | some entry =>
      obtain ⟨o, pending⟩ := entry
      have hlost := typeLost_iff hreference htype
      dsimp only
      cases hnumbered : s.host.numberedType? o with
      | none =>
        rw [sizedLinkTo_of_none hnumbered]
        exact .lost (hlost.mpr hnumbered)
      | some type =>
        have htold : ¬ TypeLost d s := fun h => by cases (hlost.mp h).symm.trans hnumbered
        obtain ⟨link, size, -, hsized⟩ | ⟨-, hsized⟩ := sizedLinkTo_of_some hnumbered
        · rw [hsized]
          exact .told htold
        · rw [hsized]
          exact .told htold

theorem gains_register {v : RegisterVariable} {h : Host}
    (hadd : s.host.addRegisterVariable? frame.function.start v = some h) :
    Gains frame d s { s with host := h } where
  same := ⟨rfl, rfl, Host.sameTypes_addRegisterVariable? hadd,
    Host.within_addRegisterVariable? hadd⟩
  count := by
    rw [Host.addRegisterVariable?_eq_some hadd]
    dsimp only
    rw [Database.localCount, Database.registerVariablesOf_addRegisterVariable, if_pos rfl,
      List.length_append]
    rfl
  stack := .inr fun name => by
    rw [Host.addRegisterVariable?_eq_some hadd]
    rfl

theorem gains_stack {v : StackVariable} {h : Host} {warnings : Array Warning}
    (hadd : s.host.addStackVariable? frame.function.start v = some h) (htold : ¬ TypeLost d s) :
    Gains frame d s { s with host := h, warnings } where
  same := ⟨rfl, rfl, Host.sameTypes_addStackVariable? hadd, Host.within_addStackVariable? hadd⟩
  count := by
    obtain ⟨db, hdb, rfl⟩ := Host.addStackVariable?_eq_some hadd
    dsimp only
    rw [Database.localCount, Database.localCount, Database.stackVariablesOf_addStackVariable? hdb,
      if_pos rfl, Database.registerVariablesOf, Database.registerVariables_addStackVariable? hdb,
      List.length_append, List.length_singleton, Database.registerVariablesOf]
    omega
  stack := .inl htold

/-- What trying a location that is no fixed address ends with, and the session it leaves. -/
inductive Tries (i : Importer) (frame : Frame) (d : Die) (name : String) (s : Session)
    (l : Location) : Except ImportError Bool × Session → Prop
  | passes (found : Bool) :
      ¬ i.Ends frame d name s l → ¬ i.Adds frame d name s l →
      Tries i frame d name s l (.ok found, s)
  | adds {t : Session} :
      i.Adds frame d name s l → Gains frame d s t → Tries i frame d name s l (.ok true, t)
  | ends {e : ImportError} : i.Ends frame d name s l → Tries i frame d name s l (.error e, s)

variable (haccepts : ∀ call, s.host.refuses call = false)

include haccepts

theorem addRegisterVariable?_accepted (f : UInt64) (v : RegisterVariable) :
    ∃ h, s.host.addRegisterVariable? f v = some h := by
  simp [Host.addRegisterVariable?, haccepts]

theorem addStackVariable?_accepted (frame : Frame) (v : StackVariable)
    (h : ¬ OnStack frame v.name s) :
    ∃ h, s.host.addStackVariable? frame.function.start v = some h := by
  have hnew : ¬ (s.host.database.stackVariable? frame.function.start v.name).isSome := h
  simp [Host.addStackVariable?, Database.addStackVariable?, haccepts, hnew]

theorem tries_placeAt {atom : LocationAtom} (hsingle : l.single? = some atom)
    (hno : ¬ ∃ address, l.single? = some (.address address)) :
    i.Tries frame d name s l ((i.placeAt frame d name l.range atom).run.run s) := by
  rw [placeAt_eq_putAt hsingle]
  rcases hspot : i.spot? frame name l with _ | v | offset
  · exact .passes false (by simp [Ends, hno, hspot]) (by simp [Adds, hspot])
  · obtain ⟨h, hadd⟩ := addRegisterVariable?_accepted haccepts frame.function.start v
    unfold putAt
    rw [Attempt.run_get_bind, hadd]
    exact .adds (.inl ⟨v, hspot⟩) (gains_register hadd)
  · unfold putAt putOnStack
    dsimp only
    rw [Attempt.run_get_bind]
    split
    · rename_i hfound
      have hon : OnStack frame name s := hfound
      exact .passes true (by simp [Ends, hno, hon]) (by simp [Adds, hspot, hon])
    · rename_i hnew
      rw [ExceptT.run_bind, StateT.run_bind]
      have htold := typeTold_knownType d s
      generalize (knownType d).run.run s = result at htold
      cases htold with
      | lost hlost => exact .ends (.inr ⟨⟨offset, hspot⟩, hnew, hlost⟩)
      | @told sized warnings htold =>
        obtain ⟨h, hadd⟩ := addStackVariable?_accepted haccepts frame
          ⟨name, offset, (sized.map (·.2)).getD 0, sized.map (·.1)⟩ hnew
        change i.Tries frame d name s l ((get >>= _ : Attempt Bool).run.run { s with warnings })
        rw [Attempt.run_get_bind]
        dsimp only
        rw [hadd]
        exact .adds (.inr ⟨⟨offset, hspot⟩, hnew, htold⟩) (gains_stack hadd htold)

theorem places_placeAll (placed : Bool) (locations : List Location) :
    i.Places frame d name placed locations s
      ((i.placeAll frame d name placed locations).run.run s) := by
  induction locations generalizing placed s with
  | nil => exact .done
  | cons l rest ih =>
    unfold placeAll
    split
    · rename_i hsingle
      have hspot : i.spot? frame name l = none := by simp [spot?, hsingle]
      refine .passes false (by simp [Ends, hsingle, hspot]) (by simp [Adds, hspot]) ?_
      rw [Bool.or_false]
      exact ih haccepts placed
    · rename_i hsingle
      exact .ends (.inl ⟨_, hsingle⟩) (.inl rfl)
    · rename_i atom hother hsingle
      have hno : ¬ ∃ address, l.single? = some (.address address) := fun ⟨address, haddress⟩ =>
        hother address (Option.some.inj (hsingle.symm.trans haddress))
      rw [ExceptT.run_bind, StateT.run_bind]
      have htries : i.Tries frame d name s l _ := tries_placeAt haccepts hsingle hno
      generalize (i.placeAt frame d name l.range atom).run.run s = result at htries
      cases htries with
      | passes found hgoes hleaves => exact .passes found hgoes hleaves (ih haccepts _)
      | @adds t hadds hgains =>
        have haccepts' : ∀ call, t.host.refuses call = false := by
          rw [hgains.same.types.refuses]
          exact haccepts
        refine .adds hadds hgains ?_
        change i.Places frame d name true rest t
          ((i.placeAll frame d name (placed || true) rest).run.run t)
        rw [Bool.or_true]
        exact ih haccepts' true
      | ends hends => exact .ends hends (.inr ⟨_, rfl⟩)

/-- What placing a variable ends with, and the session it leaves. -/
structure Treated (i : Importer) (frame : Frame) (d : Die) (s : Session)
    (out : Except ImportError Placement × Session) : Prop where
  same : s.SameButLocals out.2
  brokenOff_iff : i.BrokenOff frame d s ↔
    ¬ Database.SameLocals frame.function.start s.host.database out.2.host.database ∧
      out.1 ≠ .ok .placed
  gaveUp : i.BrokenOff frame d s → GaveUp out.1

omit haccepts in
theorem treated_unplaced {outcome : Except ImportError Placement}
    (h : ¬ i.BrokenOff frame d s) : i.Treated frame d s (outcome, s) :=
  ⟨.refl s, iff_of_false h fun hmore => hmore.1 ⟨rfl, rfl⟩, fun hbroken => absurd hbroken h⟩

theorem treated_placeVariable : i.Treated frame d s ((i.placeVariable frame d).run.run s) := by
  unfold placeVariable
  refine run_read_bind (fun name? hname => ?_) fun e he => treated_unplaced ?_
  · cases name? with
    | none => exact treated_unplaced (by simp [BrokenOff, hname])
    | some name =>
      refine run_read_bind (fun locations? hlocations => ?_) fun e he => treated_unplaced ?_
      · cases locations? with
        | none => exact treated_unplaced (by simp [BrokenOff, hlocations])
        | some locations =>
          have hplaces : i.Places frame d name false locations s _ :=
            places_placeAll haccepts false locations
          have hbroken : i.BrokenOff frame d s ↔ i.BreaksOff frame d name s locations := by
            simp [BrokenOff, hname, hlocations]
          refine ⟨hplaces.same, hbroken.trans hplaces.breaksOff_iff, fun h => ?_⟩
          exact hplaces.gaveUp_iff.mpr (hbroken.mp h).exists_ends
      · simp [BrokenOff, he]
  · simp [BrokenOff, he]

/-- How a visit to a variable leaves the function, the cache and the counts. -/
inductive Handled (i : Importer) (frame : Frame) (d : Die) (s u : Session) : Prop
  | brokenOff :
      i.BrokenOff frame d s →
      ¬ Database.SameLocals frame.function.start s.host.database u.host.database →
      u.cache.get? d.offset = none ∨ u.cache.get? d.offset = some .useless →
      u.stats.variablesPlaced = s.stats.variablesPlaced → Handled i frame d s u
  | placed :
      ¬ i.BrokenOff frame d s → u.cache.get? d.offset = some .placed →
      u.stats.variablesPlaced = s.stats.variablesPlaced + 1 → Handled i frame d s u
  | left :
      ¬ i.BrokenOff frame d s →
      Database.SameLocals frame.function.start s.host.database u.host.database →
      Handled i frame d s u

theorem handled_visitLocal (hnew : s.cache.get? d.offset = none) :
    i.Handled frame d s ((i.visitLocal frame d).run s).2 := by
  have hhas : s.cache.has d.offset = false := by rw [OffsetCache.has, hnew]; rfl
  unfold visitLocal
  rw [StateT.run_bind]
  change i.Handled frame d s ((if s.cache.has d.offset then _ else _ : Step Unit).run s).2
  rw [hhas, if_neg Bool.false_ne_true, StateT.run_bind]
  have htreated : i.Treated frame d s _ := treated_placeVariable haccepts
  generalize (i.placeVariable frame d).run.run s = result at htreated
  obtain ⟨outcome, t⟩ := result
  have hopen : t.cache.get? d.offset = none := by rw [htreated.same.cache, hnew]
  have hcount : t.stats.variablesPlaced = s.stats.variablesPlaced := by rw [htreated.same.stats]
  by_cases hbroken : i.BrokenOff frame d s
  · obtain ⟨hmore, -⟩ := htreated.brokenOff_iff.mp hbroken
    obtain hstatic | ⟨e, herror⟩ := htreated.gaveUp hbroken
    · cases hstatic
      exact .brokenOff hbroken hmore (.inl hopen) hcount
    · cases herror
      exact .brokenOff hbroken hmore (.inr (OffsetCache.get?_markUseless_of_none hopen)) hcount
  · have hleft (h : outcome ≠ .ok .placed) : Database.SameLocals frame.function.start
        s.host.database t.host.database :=
      by_contra fun hmore => hbroken (htreated.brokenOff_iff.mpr ⟨hmore, h⟩)
    rcases outcome with e | placement
    · exact .left hbroken (hleft (by simp))
    · cases placement with
      | placed =>
        have hplaced := OffsetCache.get?_markPlaced_of_none hopen
        exact .placed hbroken hplaced (congrArg (· + 1) hcount)
      | skipped => exact .left hbroken (hleft (by simp))
      | static => exact .left hbroken (hleft (by simp))

end Importer

end DebugSymbols
