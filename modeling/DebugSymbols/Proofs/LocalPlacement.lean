import DebugSymbols.Proofs.Import.Locals

/-!
What placing a local variable adds to the database.  The locations in front of the first fixed
address tell places for it, one after the other (`spots`), and what is added depends on these
places, on whether the name is on the stack already and on what is known of the type (`Yields`).

Main statement: `placeVariable_yields`.
-/

namespace DebugSymbols

/-- The location is a fixed address. -/
def Location.isFixed (l : Location) : Bool :=
  match l.single? with
  | some (.address _) => true
  | _ => false

namespace Spot

def register? : Spot → Option RegisterVariable
  | .register v => some v
  | .stack _ => none

def offset? : Spot → Option Int64
  | .register _ => none
  | .stack offset => some offset

end Spot

/-! ## Additions to the variables of a function -/

/-- Variables were added behind those of a function, and nothing else happened. -/
structure Database.Appends (f : UInt64) (registers : List RegisterVariable)
    (stack : List StackVariable) (db db' : Database) : Prop where
  registers : ∀ f', db'.registerVariablesOf f' =
    db.registerVariablesOf f' ++ if f' = f then registers else []
  stack : ∀ f', db'.stackVariablesOf f' = db.stackVariablesOf f' ++ if f' = f then stack else []
  others : db' = { db with
    registerVariables := db'.registerVariables
    stackVariables := db'.stackVariables }

/-- The same of the database of a session, which may also have reported something. -/
structure Session.Appends (f : UInt64) (registers : List RegisterVariable)
    (stack : List StackVariable) (s t : Session) : Prop where
  database : s.host.database.Appends f registers stack t.host.database
  refuses : t.host.refuses = s.host.refuses
  cache : t.cache = s.cache
  stats : t.stats = s.stats
  resolving : t.resolving = s.resolving

variable {f : UInt64} {registers registers' : List RegisterVariable}
  {stack stack' : List StackVariable}

namespace Database.Appends

variable {db db' db'' : Database}

theorem refl (db : Database) : db.Appends f [] [] db where
  registers f' := by simp
  stack f' := by simp
  others := rfl

theorem trans (h : db.Appends f registers stack db') (h' : db'.Appends f registers' stack' db'') :
    db.Appends f (registers ++ registers') (stack ++ stack') db'' where
  registers f' := by
    rw [h'.registers, h.registers]
    split <;> simp
  stack f' := by
    rw [h'.stack, h.stack]
    split <;> simp
  others := by
    rw [h'.others, h.others]

end Database.Appends

namespace Database

theorem appends_addRegisterVariable (db : Database) (f : UInt64) (v : RegisterVariable) :
    db.Appends f [v] [] (db.addRegisterVariable f v) where
  registers f' := by
    rw [registerVariablesOf_addRegisterVariable]
    split
    · rename_i hf
      rw [hf]
    · rw [List.append_nil]
  stack f' := by
    rw [ite_self, List.append_nil]
    rfl
  others := rfl

theorem appends_addStackVariable? {db db' : Database} {v : StackVariable}
    (h : db.addStackVariable? f v = some db') : db.Appends f [] [v] db' where
  registers f' := by
    rw [ite_self, List.append_nil, registerVariablesOf, registerVariables_addStackVariable? h,
      registerVariablesOf]
  stack f' := by
    rw [stackVariablesOf_addStackVariable? h]
    split
    · rename_i hf
      rw [hf]
    · rw [List.append_nil]
  others := by
    unfold addStackVariable? at h
    split at h
    · cases h
    · cases h
      rfl

end Database

namespace Session.Appends

variable {s t u : Session} {frame : Frame} {name : String}

theorem of_warnings (s : Session) (warnings : Array Warning) :
    s.Appends f [] [] { s with warnings } :=
  ⟨.refl _, rfl, rfl, rfl, rfl⟩

theorem trans (h : s.Appends f registers stack t) (h' : t.Appends f registers' stack' u) :
    s.Appends f (registers ++ registers') (stack ++ stack') u where
  database := h.database.trans h'.database
  refuses := h'.refuses.trans h.refuses
  cache := h'.cache.trans h.cache
  stats := h'.stats.trans h.stats
  resolving := h'.resolving.trans h.resolving

theorem sameTypes (h : s.Appends f registers stack t) : s.host.SameTypes t.host := by
  have hothers := h.database.others
  refine ⟨h.refuses, ?_, ?_, ?_, ?_⟩ <;> rw [hothers]

/-- A variable is on the stack afterwards if it was before, or if it was added. -/
theorem onStack_iff (h : s.Appends frame.function.start registers stack t) :
    Importer.OnStack frame name t ↔ Importer.OnStack frame name s ∨ ∃ v ∈ stack, v.name = name := by
  unfold Importer.OnStack
  change ((t.host.database.stackVariablesOf _).find? _).isSome ↔
    ((s.host.database.stackVariablesOf _).find? _).isSome ∨ _
  rw [h.database.stack, if_pos rfl, List.find?_append]
  simp

end Session.Appends

/-! ## Types of variables -/

namespace Session

/-- The type of a variable with its size, as far as there is a type in the cache and it has a
size. -/
def knownTypeOf (s : Session) (d : Die) : Except ImportError (Option (TypeLink × UInt64)) :=
  match d.reference? .type with
  | .error e => .error (.debugInfo e)
  | .ok none => .ok none
  | .ok (some offset) =>
    match s.cache.type? offset with
    | none => .ok none
    | some (o, _) =>
      (s.linkTo o).map fun link => (s.host.typeSize? o).map fun size => (link, size)

theorem knownTypeOf_congr {s t : Session} (h : s.Appends f registers stack t) (d : Die) :
    t.knownTypeOf d = s.knownTypeOf d := by
  have hlink (o : Ordinal) : t.linkTo o = s.linkTo o := by
    unfold linkTo
    rw [h.sameTypes.numberedType?]
  have hsize (o : Ordinal) : t.host.typeSize? o = s.host.typeSize? o := h.sameTypes.typeSize? o
  unfold knownTypeOf
  simp only [h.cache, hlink, hsize]

end Session

namespace Importer

/-! ## What the locations come to -/

/-- The places that the locations in front of the first fixed address tell. -/
def spots (i : Importer) (frame : Frame) (name : String) (locations : List Location) : List Spot :=
  (locations.takeWhile fun l => !l.isFixed).filterMap (i.spot? frame name)

/-- What has become of a variable when all of its locations were tried. -/
def placement (i : Importer) (frame : Frame) (name : String) (locations : List Location) :
    Placement :=
  if locations.any (·.isFixed) then .static
  else if (i.spots frame name locations).isEmpty then .skipped
  else .placed

/-- The location tells nothing: it is no fixed address, and no place for a variable either, as one
without an operation or with several, or with one that is not supported. -/
def Silent (i : Importer) (frame : Frame) (name : String) (l : Location) : Prop :=
  l.isFixed = false ∧ i.spot? frame name l = none

/-- What a variable with these places adds to the variables in registers and on the stack, and the
error that ends this, if any.  Only the first place on the stack counts, and only if the name is
not there already.  If the type cannot be told there, no place behind it counts. -/
inductive Yields (frame : Frame) (d : Die) (name : String) (s : Session) (spots : List Spot) :
    Except ImportError Unit → List RegisterVariable → List StackVariable → Prop
  | registers :
      OnStack frame name s ∨ spots.findSome? Spot.offset? = none →
      Yields frame d name s spots (.ok ()) (spots.filterMap Spot.register?) []
  | stacked {offset : Int64} {sized : Option (TypeLink × UInt64)} :
      ¬ OnStack frame name s → spots.findSome? Spot.offset? = some offset →
      s.knownTypeOf d = .ok sized →
      Yields frame d name s spots (.ok ()) (spots.filterMap Spot.register?)
        [⟨name, offset, (sized.map (·.2)).getD 0, sized.map (·.1)⟩]
  | stopped {offset : Int64} {e : ImportError} :
      ¬ OnStack frame name s → spots.findSome? Spot.offset? = some offset →
      s.knownTypeOf d = .error e →
      Yields frame d name s spots (.error e)
        ((spots.takeWhile fun spot => spot.offset?.isNone).filterMap Spot.register?) []

variable {i : Importer} {frame : Frame} {d : Die} {name : String} {s t : Session} {l : Location}
  {locations rest : List Location} {spots : List Spot} {ended : Except ImportError Unit}

theorem exists_yields (frame : Frame) (d : Die) (name : String) (s : Session) (spots : List Spot) :
    ∃ ended registers stack, Yields frame d name s spots ended registers stack := by
  by_cases hon : OnStack frame name s
  · exact ⟨_, _, _, .registers (.inl hon)⟩
  · cases hoffset : spots.findSome? Spot.offset? with
    | none => exact ⟨_, _, _, .registers (.inr hoffset)⟩
    | some offset =>
      cases htype : s.knownTypeOf d with
      | error e => exact ⟨_, _, _, .stopped hon hoffset htype⟩
      | ok sized => exact ⟨_, _, _, .stacked hon hoffset htype⟩

/-- A place in a register adds one variable, and has no part in anything else. -/
theorem Yields.of_register {v : RegisterVariable} {spots : List Spot}
    (h : Yields frame d name s (.register v :: spots) ended registers stack)
    (hon : OnStack frame name t ↔ OnStack frame name s)
    (htype : t.knownTypeOf d = s.knownTypeOf d) :
    ∃ registers', registers = v :: registers' ∧
      Yields frame d name t spots ended registers' stack := by
  cases h with
  | registers hknown =>
    rw [← hon] at hknown
    exact ⟨_, rfl, .registers hknown⟩
  | stacked hnew hoffset hsized =>
    rw [← hon] at hnew
    exact ⟨_, rfl, .stacked hnew hoffset (htype.trans hsized)⟩
  | stopped hnew hoffset he =>
    rw [← hon] at hnew
    exact ⟨_, rfl, .stopped hnew hoffset (htype.trans he)⟩

theorem Yields.of_onStack {offset : Int64} (hon : OnStack frame name s)
    (h : Yields frame d name s (.stack offset :: spots) ended registers stack) :
    Yields frame d name s spots ended registers stack := by
  cases h with
  | registers => exact .registers (.inl hon)
  | stacked hnew | stopped hnew => exact absurd hon hnew

/-! ## Going over places -/

/-- A variable gets one place after the other. -/
def putAll (frame : Frame) (d : Die) (name : String) : Bool → List Spot → Attempt Bool
  | placed, [] => return placed
  | placed, spot :: rest => do
    let done ← putAt frame d name (some spot)
    putAll frame d name (placed || done) rest

theorem spots_cons_of_isFixed (h : l.isFixed = true) :
    i.spots frame name (l :: rest) = [] := by
  simp [Importer.spots, h]

theorem spots_cons (h : l.isFixed = false) :
    i.spots frame name (l :: rest) =
      (i.spot? frame name l).toList ++ i.spots frame name rest := by
  unfold Importer.spots
  rw [List.takeWhile_cons_of_pos (by simp [h]), List.filterMap_cons]
  cases i.spot? frame name l <;> rfl

/-- Going over the locations is going over the places that they tell. -/
theorem placeAll_eq_putAll (placed : Bool) (locations : List Location) :
    i.placeAll frame d name placed locations = (do
      let placed ← putAll frame d name placed (i.spots frame name locations)
      return if locations.any (·.isFixed) then .static
        else if placed then .placed else .skipped) := by
  induction locations generalizing placed with
  | nil => rfl
  | cons l rest ih =>
    unfold placeAll
    split
    · rename_i hsingle
      have hfixed : l.isFixed = false := by simp [Location.isFixed, hsingle]
      have hspot : i.spot? frame name l = none := by simp [spot?, hsingle]
      rw [ih, spots_cons hfixed, hspot, List.any_cons, hfixed]
      rfl
    · rename_i hsingle
      have hfixed : l.isFixed = true := by simp [Location.isFixed, hsingle]
      rw [spots_cons_of_isFixed hfixed, List.any_cons, hfixed]
      rfl
    · rename_i atom hother hsingle
      have hfixed : l.isFixed = false := by
        unfold Location.isFixed
        rw [hsingle]
        split
        · rename_i address haddress
          exact absurd (Option.some.inj haddress) (hother address)
        · rfl
      rw [placeAt_eq_putAt hsingle, spots_cons hfixed, List.any_cons, hfixed, Bool.false_or]
      simp only [ih]
      cases i.spot? frame name l with
      | none => simp [putAt]
      | some spot => simp [putAll]

theorem unknownOrdinal_of_linkTo {o : Ordinal} {e : ImportError} (h : s.linkTo o = .error e) :
    e = .unknownOrdinal o := by
  unfold Session.linkTo at h
  split at h <;> cases h
  rfl

/-- Looking for the type of a variable does nothing but report a type that has no size. -/
theorem run_knownType (d : Die) (s : Session) :
    ∃ warnings, (knownType d).run.run s = (s.knownTypeOf d, { s with warnings }) := by
  refine run_read_bind (P := fun out => ∃ warnings, out = (s.knownTypeOf d, { s with warnings }))
    (fun reference hreference => ?_) fun e he => ?_
  · unfold Session.knownTypeOf
    rw [hreference]
    cases reference with
    | none => exact ⟨s.warnings, rfl⟩
    | some offset =>
      rw [Attempt.run_get_bind]
      dsimp only
      cases s.cache.type? offset with
      | none => exact ⟨s.warnings, rfl⟩
      | some entry =>
        obtain ⟨o, pending⟩ := entry
        dsimp only
        unfold Session.sizedLinkTo
        cases hlink : s.linkTo o with
        | error e =>
          obtain rfl := unknownOrdinal_of_linkTo hlink
          exact ⟨s.warnings, rfl⟩
        | ok link =>
          cases s.host.typeSize? o with
          | none => exact ⟨_, rfl⟩
          | some size => exact ⟨s.warnings, rfl⟩
  · unfold Session.knownTypeOf
    rw [he]
    exact ⟨s.warnings, rfl⟩

theorem run_putOnStack_of_onStack (hon : OnStack frame name s) (offset : Int64) :
    (putOnStack frame d name offset).run.run s = (.ok true, s) := by
  have hsome : (s.host.stackVariable? frame.function.start name).isSome = true := hon
  unfold putOnStack
  rw [Attempt.run_get_bind, if_pos hsome]
  rfl

/-- Nothing is added if the type cannot be told. -/
theorem run_putOnStack_of_error {e : ImportError} (hnew : ¬ OnStack frame name s)
    (htype : s.knownTypeOf d = .error e) (offset : Int64) :
    ∃ t, (putOnStack frame d name offset).run.run s = (.error e, t) ∧
      s.Appends frame.function.start [] [] t := by
  obtain ⟨warnings, hrun⟩ := run_knownType d s
  refine ⟨{ s with warnings }, ?_, .of_warnings s warnings⟩
  have hnot : ¬ (s.host.stackVariable? frame.function.start name).isSome = true := hnew
  unfold putOnStack
  rw [Attempt.run_get_bind, if_neg hnot, ExceptT.run_bind, StateT.run_bind, hrun, htype]
  rfl

section Accepting

variable (haccepts : ∀ call, s.host.refuses call = false)

include haccepts

theorem run_putOnStack_of_ok {sized : Option (TypeLink × UInt64)} (hnew : ¬ OnStack frame name s)
    (htype : s.knownTypeOf d = .ok sized) (offset : Int64) :
    ∃ t, (putOnStack frame d name offset).run.run s = (.ok true, t) ∧
      s.Appends frame.function.start []
        [⟨name, offset, (sized.map (·.2)).getD 0, sized.map (·.1)⟩] t := by
  obtain ⟨warnings, hrun⟩ := run_knownType d s
  obtain ⟨h, hadd⟩ := addStackVariable?_accepted haccepts frame
    ⟨name, offset, (sized.map (·.2)).getD 0, sized.map (·.1)⟩ hnew
  refine ⟨{ s with host := h, warnings }, ?_, ?_⟩
  · have hnot : ¬ (s.host.stackVariable? frame.function.start name).isSome = true := hnew
    unfold putOnStack
    rw [Attempt.run_get_bind, if_neg hnot]
    rw [htype] at hrun
    rw [Attempt.run_bind_ok hrun, Attempt.run_get_bind]
    dsimp only
    rw [hadd]
    rfl
  · obtain ⟨db, hdb, rfl⟩ := Host.addStackVariable?_eq_some hadd
    exact ⟨Database.appends_addStackVariable? hdb, rfl, rfl, rfl, rfl⟩

theorem run_putAt_register (v : RegisterVariable) :
    ∃ t, (putAt frame d name (some (.register v))).run.run s = (.ok true, t) ∧
      s.Appends frame.function.start [v] [] t := by
  obtain ⟨h, hadd⟩ := addRegisterVariable?_accepted haccepts frame.function.start v
  refine ⟨{ s with host := h }, ?_, ?_⟩
  · unfold putAt
    rw [Attempt.run_get_bind, hadd]
    rfl
  · rw [Host.addRegisterVariable?_eq_some hadd]
    exact ⟨Database.appends_addRegisterVariable _ _ v, rfl, rfl, rfl, rfl⟩

omit haccepts in
/-- What the first place adds comes before what the others add. -/
theorem run_putAll_cons {spot : Spot} {later : List Spot}
    {outcome : Except ImportError Bool} {u : Session}
    (hput : (putAt frame d name (some spot)).run.run s = (.ok true, t))
    (happends : s.Appends frame.function.start registers stack t)
    (hrest : (putAll frame d name true later).run.run t = (outcome, u))
    (happends' : t.Appends frame.function.start registers' stack' u) (placed : Bool) :
    (putAll frame d name placed (spot :: later)).run.run s = (outcome, u) ∧
      s.Appends frame.function.start (registers ++ registers') (stack ++ stack') u := by
  refine ⟨?_, happends.trans happends'⟩
  unfold putAll
  rw [Attempt.run_bind_ok hput, Bool.or_true, hrest]

/-- What a variable yields is what going over its places adds. -/
theorem run_putAll (placed : Bool) (h : Yields frame d name s spots ended registers stack) :
    ∃ t, (putAll frame d name placed spots).run.run s =
        (ended.map fun _ => placed || !spots.isEmpty, t) ∧
      s.Appends frame.function.start registers stack t := by
  induction spots generalizing s placed ended registers stack with
  | nil =>
    cases h with
    | registers =>
      refine ⟨s, ?_, .of_warnings s s.warnings⟩
      unfold putAll
      rw [List.isEmpty_nil, Bool.not_true, Bool.or_false]
      rfl
    | stacked _ hoffset | stopped _ hoffset => cases hoffset
  | cons spot rest ih =>
    rw [List.isEmpty_cons, Bool.not_false, Bool.or_true]
    -- Once a place is taken, the variable is placed, whatever the others say.
    have goOn {t : Session} {added : List RegisterVariable} {added' : List StackVariable}
        (hput : (putAt frame d name (some spot)).run.run s = (.ok true, t))
        (happends : s.Appends frame.function.start added added' t)
        {registers : List RegisterVariable} {stack : List StackVariable}
        (hrest : Yields frame d name t rest ended registers stack) :
        ∃ u, (putAll frame d name placed (spot :: rest)).run.run s =
            (ended.map fun _ => true, u) ∧
          s.Appends frame.function.start (added ++ registers) (added' ++ stack) u := by
      have haccepts' : ∀ call, t.host.refuses call = false := by
        rw [happends.refuses]
        exact haccepts
      obtain ⟨u, hrun, happends'⟩ := ih haccepts' true hrest
      exact ⟨u, run_putAll_cons hput happends hrun happends' placed⟩
    cases spot with
    | register v =>
      obtain ⟨t, hput, happends⟩ := run_putAt_register haccepts v
      have hon : OnStack frame name t ↔ OnStack frame name s := by
        rw [happends.onStack_iff]
        simp
      obtain ⟨registers', rfl, hrest⟩ := h.of_register hon (Session.knownTypeOf_congr happends d)
      exact goOn hput happends hrest
    | stack offset =>
      by_cases hon : OnStack frame name s
      · exact goOn (run_putOnStack_of_onStack hon offset) (.of_warnings s s.warnings)
          (h.of_onStack hon)
      · cases h with
        | registers hknown =>
          obtain hknown | hnone := hknown
          · exact absurd hknown hon
          · cases hnone
        | stacked _ hoffset htype =>
          cases hoffset
          obtain ⟨t, hput, happends⟩ := run_putOnStack_of_ok haccepts hon htype offset
          have hthere : OnStack frame name t := happends.onStack_iff.mpr
            (.inr ⟨_, List.mem_singleton_self _, rfl⟩)
          exact goOn hput happends (.registers (.inl hthere))
        | stopped _ _ he =>
          obtain ⟨t, hrun, happends⟩ := run_putOnStack_of_error hon he offset
          refine ⟨t, ?_, happends⟩
          unfold putAll putAt
          rw [ExceptT.run_bind, StateT.run_bind, hrun]
          rfl

end Accepting

/-! ## Locations that tell nothing -/

section Silence

variable {p : Location → Bool}
  (hsilent : ∀ l ∈ locations, p l = false → i.Silent frame name l)

include hsilent

theorem spots_filter : i.spots frame name (locations.filter p) = i.spots frame name locations := by
  induction locations with
  | nil => rfl
  | cons l rest ih =>
    obtain ⟨hl, hrest⟩ := List.forall_mem_cons.mp hsilent
    cases hp : p l with
    | false =>
      obtain ⟨hfixed, hspot⟩ := hl hp
      rw [List.filter_cons_of_neg (by simp [hp]), ih hrest, spots_cons hfixed, hspot]
      rfl
    | true =>
      rw [List.filter_cons_of_pos hp]
      cases hfixed : l.isFixed with
      | true => rw [spots_cons_of_isFixed hfixed, spots_cons_of_isFixed hfixed]
      | false => rw [spots_cons hfixed, spots_cons hfixed, ih hrest]

theorem any_isFixed_filter : (locations.filter p).any (·.isFixed) = locations.any (·.isFixed) := by
  rw [Bool.eq_iff_iff, List.any_eq_true, List.any_eq_true]
  refine exists_congr fun l => ⟨fun ⟨hmem, hfixed⟩ => ?_, fun ⟨hmem, hfixed⟩ => ?_⟩
  · exact ⟨List.mem_of_mem_filter hmem, hfixed⟩
  · refine ⟨List.mem_filter.mpr ⟨hmem, ?_⟩, hfixed⟩
    cases hp : p l with
    | true => rfl
    | false => cases (hsilent l hmem hp).1.symm.trans hfixed

end Silence

theorem placeVariable_eq_placeAll (hname : d.name? = .ok (some name))
    (hlocations : d.locations? .location = .ok (some locations)) :
    i.placeVariable frame d = i.placeAll frame d name false locations := by
  unfold placeVariable
  rw [hname, hlocations]
  rfl

end Importer

open Importer

/-- A named variable with locations adds what its places yield to the variables of the function, and
leaves everything else in the database as it was.  It yields one thing or another, and locations
that tell nothing have no part in this. -/
theorem placeVariable_yields {i : Importer} {frame : Frame} {d : Die} {name : String} {s : Session}
    {locations : List Location} (haccepts : ∀ call, s.host.refuses call = false)
    (hname : d.name? = .ok (some name))
    (hlocations : d.locations? .location = .ok (some locations)) :
    (∃ ended registers stack,
      Yields frame d name s (i.spots frame name locations) ended registers stack) ∧
    (∀ ended registers stack,
      Yields frame d name s (i.spots frame name locations) ended registers stack →
      ∃ t, (i.placeVariable frame d).run.run s =
          (ended.map fun _ => i.placement frame name locations, t) ∧
        s.Appends frame.function.start registers stack t) ∧
    ∀ p : Location → Bool, (∀ l ∈ locations, p l = false → i.Silent frame name l) →
      i.placeAll frame d name false (locations.filter p) = i.placeVariable frame d := by
  refine ⟨exists_yields frame d name s _, fun ended registers stack h => ?_, fun p hsilent => ?_⟩
  · obtain ⟨t, hrun, happends⟩ := run_putAll haccepts false h
    refine ⟨t, ?_, happends⟩
    rw [placeVariable_eq_placeAll hname hlocations, placeAll_eq_putAll, ExceptT.run_bind,
      StateT.run_bind, hrun]
    unfold placement
    cases ended with
    | error e => rfl
    | ok =>
      cases (i.spots frame name locations).isEmpty <;> rfl
  · rw [placeVariable_eq_placeAll hname hlocations, placeAll_eq_putAll, placeAll_eq_putAll,
      spots_filter hsilent, any_isFixed_filter hsilent]

/-- A type `i` of four bytes, and a variable `v` of that type, which is in a register first, then
in two at once, then in the frame, then at a fixed address and then in a register again. -/
def scattered : Sections :=
  { Sections.inPlace
      ⟨#[1, 17, 1, 0, 0, 2, 36, 0, 3, 8, 11, 11, 62, 11, 0, 0, 3, 52, 0, 3, 8, 73, 19, 2, 23, 0, 0,
        0]⟩
      ⟨#[25, 0, 0, 0, 4, 0, 0, 0, 0, 0, 4, 1, 2, 105, 0, 4, 5, 3, 118, 0, 12, 0, 0, 0, 0, 0, 0, 0,
        0]⟩ with
    locations := ⟨#[16, 0, 0, 0, 20, 0, 0, 0, 1, 0, 80, 20, 0, 0, 0, 24, 0, 0, 0, 2, 0, 80, 81,
      24, 0, 0, 0, 28, 0, 0, 0, 2, 0, 145, 112, 28, 0, 0, 0, 32, 0, 0, 0, 5, 0, 3, 48, 0, 0, 0,
      32, 0, 0, 0, 36, 0, 0, 0, 1, 0, 81, 0, 0, 0, 0, 0, 0, 0, 0]⟩ }

/-- A function at `0x10`, whose frame starts eight bytes above the frame pointer. -/
def shiftedFrame : Frame :=
  ⟨⟨16, 64⟩, .ofLocations [⟨none, [.registerOffset 5 8]⟩] ⟨16, 64⟩ .x86⟩

/-- The first register and the place in the frame count. -/
theorem placeVariable_yields_scattered :
    ∃ info d, DebugInfo.decode scattered = .ok info ∧ info.dieAt 17 = .ok d ∧
      let i : Importer := ⟨info, {}⟩
      let s := i.performAll [.runTypes] (newSession (Host.built 4 [.addFunction ⟨16, 64⟩]))
      (∀ call, s.host.refuses call = false) ∧ d.name? = .ok (some "v") ∧
        (∃ locations, d.locations? .location = .ok (some locations) ∧ locations.length = 5) ∧
        ∃ t, (i.placeVariable shiftedFrame d).run.run s = (.ok .static, t) ∧
          s.Appends 16 [⟨⟨16, 20⟩, "eax", "v"⟩] [⟨"v", -8, 4, some (.named ⟨1⟩)⟩] t := by
  have hsize : scattered.entries.size < UInt64.size := by decide
  have hrun : (DebugInfo.decode scattered).toOption.any (fun info =>
      (info.dieAt 17).toOption.any fun d => (d.locations? .location).toOption.any fun locations? =>
        locations?.any fun locations =>
          let i : Importer := ⟨info, {}⟩
          let s := i.performAll [.runTypes] (newSession (Host.built 4 [.addFunction ⟨16, 64⟩]))
          let spots := i.spots shiftedFrame "v" locations
          decide (d.name?.toOption = some (some "v") ∧ locations.length = 5 ∧
            s.host.stackVariable? 16 "v" = none ∧
            (s.knownTypeOf d).toOption = some (some (.named ⟨1⟩, 4)) ∧
            spots.findSome? Spot.offset? = some (-8) ∧
            spots.filterMap Spot.register? = [⟨⟨16, 20⟩, "eax", "v"⟩] ∧
            i.placement shiftedFrame "v" locations = .static)) = true := by
    decide +kernel
  obtain ⟨info, hdecode, hrun⟩ := Except.of_any_toOption hrun
  obtain ⟨d, hd, hrun⟩ := Except.of_any_toOption hrun
  obtain ⟨locations?, hlocations, hrun⟩ := Except.of_any_toOption hrun
  obtain ⟨locations, rfl, hrun⟩ := (Option.any_eq_true _ _).mp hrun
  obtain ⟨hname, hlength, hnone, htype, hoffset, hregisters, hplacement⟩ := of_decide_eq_true hrun
  let i : Importer := ⟨info, {}⟩
  let s := i.performAll [.runTypes] (newSession (Host.built 4 [.addFunction ⟨16, 64⟩]))
  have haccepts : ∀ call, s.host.refuses call = false := by
    have hstart : i.Idle ⟨newSession (Host.built 4 [.addFunction ⟨16, 64⟩]), []⟩ :=
      idle_start 4 [.addFunction ⟨16, 64⟩]
    obtain ⟨τ, htrace, heq, -⟩ :=
      trace_performAll (DebugInfo.indexed_of_decode hdecode hsize) hstart [.runTypes]
    have hsession : τ.session = s := heq
    rw [← hsession]
    exact (Trace.sound hstart.sound htrace).accepts
  have hnew : ¬ OnStack shiftedFrame "v" s := by
    have : s.host.stackVariable? shiftedFrame.function.start "v" = none := hnone
    simp [OnStack, this]
  have hyields := Yields.stacked hnew hoffset (Except.eq_ok_of_toOption htype)
  have hname' := Except.eq_ok_of_toOption hname
  obtain ⟨t, hplace, happends⟩ :=
    (placeVariable_yields haccepts hname' hlocations).2.1 _ _ _ hyields
  refine ⟨info, d, hdecode, hd, haccepts, hname', ⟨locations, hlocations, hlength⟩, t, ?_, ?_⟩
  · rw [← hplacement]
    exact hplace
  · rw [← hregisters]
    exact happends

/-- A type `i`, and a variable `v` of that type, which is eight bytes below the frame pointer. -/
def framed : Sections := .inPlace
  ⟨#[1, 17, 1, 0, 0, 2, 36, 0, 3, 8, 0, 0, 3, 46, 1, 17, 1, 0, 0, 4, 52, 0, 3, 8, 73, 19, 2, 24, 0,
    0, 0]⟩
  ⟨#[28, 0, 0, 0, 4, 0, 0, 0, 0, 0, 4, 1, 2, 105, 0, 3, 16, 0, 0, 0, 4, 118, 0, 12, 0, 0, 0, 2, 117,
    120, 0, 0]⟩

/-- A cache that remembers the type `i` by an ordinal that the database has not handed out. -/
def staleCache : List UInt8 := [8, 1, 18, 6, 8, 12, 16, 1, 24, 99, 26, 4, 8, 99, 16, 12]

/-- A variable whose type is in the cache, but not in the database and hence without a size, is not
placed without a type: its placement fails. -/
theorem placeVariable_stale :
    ∃ info d s, DebugInfo.decode framed = .ok info ∧ info.dieAt 20 = .ok d ∧
      let i : Importer := ⟨info, {}⟩
      let calls : List Call :=
        [.addFunction ⟨16, 64⟩, .storeBlob "dwarfimport.offset_cache" staleCache]
      i.resumeSession (Host.built 4 calls) = .ok s ∧ d.name? = .ok (some "v") ∧
        d.locations? .location = .ok (some [⟨none, [.registerOffset 5 (-8)]⟩]) ∧
        d.reference? .type = .ok (some 12) ∧ s.cache.type? 12 = some (⟨99⟩, false) ∧
        s.host.typeSize? ⟨99⟩ = none ∧ ¬ OnStack shiftedFrame "v" s ∧
        ∃ t, (i.placeVariable shiftedFrame d).run.run s = (.error (.unknownOrdinal ⟨99⟩), t) ∧
          t.host.database.stackVariablesOf 16 = [] := by
  have hrun : (DebugInfo.decode framed).toOption.any (fun info =>
      (info.dieAt 20).toOption.any fun d =>
        let i : Importer := ⟨info, {}⟩
        let calls : List Call :=
          [.addFunction ⟨16, 64⟩, .storeBlob "dwarfimport.offset_cache" staleCache]
        (i.resumeSession (Host.built 4 calls)).toOption.any fun s =>
          let out := (i.placeVariable shiftedFrame d).run.run s
          decide (d.name? = .ok (some "v") ∧
            d.locations? .location = .ok (some [⟨none, [.registerOffset 5 (-8)]⟩]) ∧
            d.reference? .type = .ok (some 12) ∧ s.cache.type? 12 = some (⟨99⟩, false) ∧
            s.host.typeSize? ⟨99⟩ = none ∧ s.host.stackVariable? 16 "v" = none ∧
            out.1 = .error (.unknownOrdinal ⟨99⟩) ∧
            out.2.host.database.stackVariablesOf 16 = [])) = true := by
    decide +kernel
  obtain ⟨info, hdecode, hrun⟩ := Except.of_any_toOption hrun
  obtain ⟨d, hd, hrun⟩ := Except.of_any_toOption hrun
  obtain ⟨s, hresume, hrun⟩ := Except.of_any_toOption hrun
  obtain ⟨hname, hlocations, hreference, hcached, hsize, hnone, herror, hstack⟩ :=
    of_decide_eq_true hrun
  have hnew : ¬ OnStack shiftedFrame "v" s := by
    have : s.host.stackVariable? shiftedFrame.function.start "v" = none := hnone
    simp [OnStack, this]
  exact ⟨info, d, s, hdecode, hd, hresume, hname, hlocations, hreference, hcached, hsize, hnew, _,
    Prod.ext herror rfl, hstack⟩

end DebugSymbols
