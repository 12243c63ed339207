import DebugSymbols.Proofs.Import.Naming

/-!
Which enumeration an entry gets.  `EnumLookup` says what looking for it ends with, and `NewEnum`
what adding one with its constants comes to.  Either way the entry has the enumeration that it is
to have (`Counts`).
-/

namespace DebugSymbols

variable {i : Importer} {scope : Scope} {σ : History} {d : Die} {ps : List (String × UInt64)}

/-! ## Constants of entries -/

theorem Listing.ofReadings_eq {α : Type} {f : α → Except DebugInfo.Error (String × UInt64)}
    {l : List α} (h : l.mapM f = .ok ps) : ofReadings (l.map f) = .complete ps := by
  induction l generalizing ps with
  | nil =>
    cases h
    rfl
  | cons a rest ih =>
    rw [List.mapM_cons] at h
    obtain ⟨pair, hpair, h⟩ := Except.bind_eq_ok h
    obtain ⟨others, hothers, h⟩ := Except.bind_eq_ok h
    cases h
    rw [List.map_cons, hpair, ofReadings, ih hothers]
    rfl

/-- The name of the first constant is that of the first enumerator. -/
theorem Die.Enumerates.head? (hd : d.Enumerates ps) {c : String}
    (hc : (Listing.names ps).head? = some c) :
    ∃ first, d.enumerators.head? = some first ∧ first.name = .ok c := by
  have hconstants := hd.constants
  cases hl : d.enumerators with
  | nil =>
    rw [hl] at hconstants
    cases hconstants
    cases hc
  | cons first rest =>
    rw [hl, List.mapM_cons] at hconstants
    obtain ⟨pair, hpair, hconstants⟩ := Except.bind_eq_ok hconstants
    obtain ⟨others, -, hconstants⟩ := Except.bind_eq_ok hconstants
    cases hconstants
    cases hc
    obtain ⟨value, -, hpair⟩ := Except.bind_eq_ok hpair
    obtain ⟨name, hname, hpair⟩ := Except.bind_eq_ok hpair
    cases hpair
    exact ⟨first, rfl, hname⟩

namespace Importer

theorem Sound.describesEnum_eq (hs : i.Sound σ) (hd : d.Enumerates ps) {id : EnumId} {e : EnumDef}
    (hget : σ.session.host.database.enumDef? id = some e) :
    describesEnum σ.session.host id d = (Listing.ofEnum e).agrees (.complete ps) := by
  unfold describesEnum
  rw [hs.enumDef?, hget]
  simp only [hd.tag, if_true, Listing.ofEnumDie, Listing.ofReadings_eq hd.constants]

theorem Sound.enumOf_of_describesEnum (hs : i.Sound σ) (hd : d.Enumerates ps) {id : EnumId}
    {e : EnumDef} (hget : σ.session.host.database.enumDef? id = some e)
    (h : describesEnum σ.session.host id d = .ok true) :
    σ.session.host.database.EnumOf e.ordinal ps :=
  ⟨id, e, hget, rfl, by rwa [← hs.describesEnum_eq hd hget]⟩

/-! ## Adding constants -/

/-- What each constant that is accepted keeps is kept by all of them. -/
theorem addConstants_keeps {P : Host → Prop} {id : EnumId} {constants : List (String × UInt64)}
    {h : Host} (hP : P h)
    (hstep : ∀ {h h' : Host} {name value}, P h →
      h.addEnumConstant? id name value = some h' → P h') :
    P (addConstants id constants h) := by
  induction constants generalizing h with
  | nil => exact hP
  | cons c rest ih =>
    change P (addConstants id rest ((h.addEnumConstant? id c.1 c.2).getD h))
    cases hadd : h.addEnumConstant? id c.1 c.2 with
    | none => exact ih hP
    | some h' => exact ih (hstep hP hadd)

theorem modify_eq_setIfInBounds {α : Type} {xs : Array α} {n : Nat} {a : α}
    (h : xs[n]? = some a) (f : α → α) : xs.modify n f = xs.setIfInBounds n (f a) := by
  grind

theorem setIfInBounds_self {α : Type} {xs : Array α} {n : Nat} {a : α} (h : xs[n]? = some a) :
    xs.setIfInBounds n a = xs := by
  grind

theorem setIfInBounds_push_size {α : Type} (xs : Array α) (a b : α) :
    (xs.push a).setIfInBounds xs.size b = xs.push b := by
  grind

/-- The constants, and those of the others whose names are new, each name once. -/
def extended (constants ps : List (String × UInt64)) : List (String × UInt64) :=
  constants ++ (ps.filter (·.1 ∉ Listing.names constants)).eraseDupsBy (·.1 == ·.1)

theorem extended_nil_right (constants : List (String × UInt64)) :
    extended constants [] = constants := List.append_nil _

theorem extended_nil_left (ps : List (String × UInt64)) :
    extended [] ps = ps.eraseDupsBy (·.1 == ·.1) := by
  simp [extended, Listing.names]

section

variable {constants : List (String × UInt64)} {c : String × UInt64}

theorem extended_cons_of_mem (h : c.1 ∈ Listing.names constants) (ps : List (String × UInt64)) :
    extended constants (c :: ps) = extended constants ps := by
  unfold extended
  rw [List.filter_cons_of_neg (by simpa using h)]

theorem extended_cons_of_notMem (h : c.1 ∉ Listing.names constants)
    (ps : List (String × UInt64)) :
    extended constants (c :: ps) = extended (constants ++ [c]) ps := by
  have hfilter : (ps.filter (·.1 ∉ Listing.names constants)).filter
      (fun pair => (pair.1 == c.1) = false) =
      ps.filter (·.1 ∉ Listing.names (constants ++ [c])) := by
    rw [List.filter_filter]
    refine List.filter_congr fun pair _ => Bool.eq_iff_iff.mpr ?_
    simp only [Bool.and_eq_true, decide_eq_true_eq, beq_eq_false_iff_ne]
    simp [Listing.names, and_comm]
  unfold extended
  rw [List.filter_cons_of_pos (by simpa using h), List.eraseDupsBy_cons, hfilter]
  simp

theorem names_concat_nodup (hnodup : (Listing.names constants).Nodup)
    (hfresh : c.1 ∉ Listing.names constants) : (Listing.names (constants ++ [c])).Nodup := by
  simpa [Listing.names] using List.Nodup.concat hfresh hnodup

theorem nodup_extended (h : (Listing.names constants).Nodup) (ps : List (String × UInt64)) :
    (Listing.names (extended constants ps)).Nodup := by
  induction ps generalizing constants with
  | nil => rwa [extended_nil_right]
  | cons c rest ih =>
    by_cases hmem : c.1 ∈ Listing.names constants
    · rw [extended_cons_of_mem hmem]
      exact ih h
    · rw [extended_cons_of_notMem hmem]
      exact ih (names_concat_nodup h hmem)

/-- Nothing is left out if all names are different. -/
theorem extended_eq_append {ps : List (String × UInt64)}
    (h : (Listing.names (constants ++ ps)).Nodup) : extended constants ps = constants ++ ps := by
  induction ps generalizing constants with
  | nil => rw [extended_nil_right, List.append_nil]
  | cons c rest ih =>
    have hmove : constants ++ c :: rest = (constants ++ [c]) ++ rest := by simp
    have hfresh : c.1 ∉ Listing.names constants := by
      rw [Listing.names, List.map_append, List.nodup_append] at h
      exact fun hmem => h.2.2 _ hmem c.1 (by simp) rfl
    rw [extended_cons_of_notMem hfresh, hmove]
    exact ih (hmove ▸ h)

end

/-- Adding constants gives the enumeration those whose names are new, and changes nothing else. -/
theorem addConstants_eq {id : EnumId} {h : Host} {e : EnumDef}
    (he : h.database.enumDef? id = some e) (ps : List (String × UInt64)) :
    addConstants id ps h = { h with database := { h.database with
      enums := h.database.enums.setIfInBounds id.val
        { e with constants := extended e.constants ps } } } := by
  induction ps generalizing h e with
  | nil =>
    rw [extended_nil_right, show { e with constants := e.constants } = e from rfl,
      setIfInBounds_self he]
    rfl
  | cons c rest ih =>
    rw [show addConstants id (c :: rest) h =
      addConstants id rest ((h.addEnumConstant? id c.1 c.2).getD h) from rfl]
    have hany : e.constants.any (·.1 = c.1) = true ↔ c.1 ∈ Listing.names e.constants := by
      simp [Listing.names]
    by_cases hmem : c.1 ∈ Listing.names e.constants
    · have hrefused : h.addEnumConstant? id c.1 c.2 = none := by
        unfold Host.addEnumConstant? Database.addEnumConstant?
        rw [he, Option.bind_eq_bind, Option.bind_some, if_pos (hany.mpr hmem)]
        rfl
      rw [hrefused, Option.getD_none, extended_cons_of_mem hmem]
      exact ih he
    · let longer : EnumDef := { e with constants := e.constants ++ [c] }
      let grown : Host := { h with database := { h.database with
        enums := h.database.enums.setIfInBounds id.val longer } }
      have hadd : h.addEnumConstant? id c.1 c.2 = some grown := by
        unfold Host.addEnumConstant? Database.addEnumConstant?
        rw [he, Option.bind_eq_bind, Option.bind_some, if_neg (mt hany.mp hmem),
          modify_eq_setIfInBounds he]
        rfl
      have hlt : id.val < h.database.enums.size := (Array.getElem?_eq_some_iff.mp he).1
      have hget : grown.database.enumDef? id = some longer := by
        rw [Database.enumDef?, Array.getElem?_setIfInBounds, if_pos rfl, if_pos hlt]
      rw [hadd, Option.getD_some, extended_cons_of_notMem hmem, ih hget]
      simp only [grown, longer, Array.setIfInBounds_setIfInBounds]

/-- An enumeration gets all constants, in their order, if their names are new and different.  In
any case its constants keep different names. -/
theorem enumDef?_addConstants {id : EnumId} {h : Host} {e : EnumDef}
    (he : h.database.enumDef? id = some e) (hnodup : (Listing.names e.constants).Nodup)
    (ps : List (String × UInt64)) :
    ∃ constants,
      (addConstants id ps h).database.enumDef? id = some { e with constants } ∧
      (Listing.names constants).Nodup ∧
      ((Listing.names (e.constants ++ ps)).Nodup → constants = e.constants ++ ps) := by
  have hlt : id.val < h.database.enums.size := (Array.getElem?_eq_some_iff.mp he).1
  refine ⟨extended e.constants ps, ?_, nodup_extended hnodup ps, extended_eq_append⟩
  rw [addConstants_eq he, Database.enumDef?, Array.getElem?_setIfInBounds, if_pos rfl, if_pos hlt]

theorem grows_addConstants {h : Host} (id : EnumId) (constants : List (String × UInt64)) :
    h.Grows (addConstants id constants h) :=
  addConstants_keeps (P := h.Grows) (.refl h) fun hgrows hadd =>
    hgrows.trans (Host.grows_addEnumConstant? hadd)

/-- Constants change no type and no other enumeration. -/
theorem addConstants_others (id : EnumId) (constants : List (String × UInt64)) (h : Host) :
    (addConstants id constants h).database.types = h.database.types ∧
      ∀ id', id' ≠ id →
        (addConstants id constants h).database.enumDef? id' = h.database.enumDef? id' := by
  let P (h' : Host) : Prop := h'.database.types = h.database.types ∧
    ∀ id', id' ≠ id → h'.database.enumDef? id' = h.database.enumDef? id'
  refine addConstants_keeps (P := P) ⟨rfl, fun _ _ => rfl⟩ fun {h₁ h₂ name value} hP hadd => ?_
  obtain ⟨db, hdb, rfl⟩ := Host.addEnumConstant?_eq_some hadd
  obtain ⟨e, hadds⟩ := Database.addsConstant hdb
  refine ⟨?_, fun id' hid => ?_⟩
  · rw [← hP.1, hadds.eq]
  · rw [hadds.enumDef?, if_neg hid]
    exact hP.2 id' hid

/-! ## Looking for an enumeration -/

/-- The enumeration is the one that is found for the entry. -/
structure FindsEnum (s : Session) (d : Die) (width : UInt8) (id : EnumId) : Prop where
  describes : describesEnum s.host id d = .ok true
  named : ∀ stated, d.name? = .ok (some stated) →
    ∃ k, (enumRegistry d width).Reaches s stated k ∧
      s.host.findEnum? (underscored k stated) = some id
  unnamed : d.name? = .ok none → ∀ first c, d.enumerators.head? = some first →
    first.name = .ok c → s.host.enumWithConstant? c = some id

/-- No enumeration is found for the entry, and a new one would get the name. -/
structure LacksEnum (s : Session) (d : Die) (width : UInt8) (name : Option String) : Prop where
  named : ∀ stated, d.name? = .ok (some stated) →
    ∃ k, (enumRegistry d width).Reaches s stated k ∧ name = some (underscored k stated)
  unnamed : d.name? = .ok none → name = none ∧ ∀ first c, d.enumerators.head? = some first →
    first.name = .ok c → ∀ other, s.host.enumWithConstant? c = some other →
      describesEnum s.host other d = .ok false

/-- What looking for the enumeration of an entry ends with, and the session it leaves. -/
inductive EnumLookup (s : Session) (d : Die) (width : UInt8) :
    Except ImportError (EnumId × Bool) × Session → Prop
  | found {id : EnumId} : FindsEnum s d width id → EnumLookup s d width (.ok (id, true), s)
  | added {name : Option String} {id : EnumId} {h : Host} :
      LacksEnum s d width name → s.host.addEnum? name width = some (id, h) →
      EnumLookup s d width (.ok (id, false), { s with host := h })
  | failed {e : ImportError} : EnumLookup s d width (.error e, s)

theorem run_read_bind {α β : Type} {x : Except DebugInfo.Error β} {f : β → Attempt α} {s : Session}
    {P : Except ImportError α × Session → Prop} (hok : ∀ a, x = .ok a → P ((f a).run.run s))
    (herr : ∀ e, x = .error e → P (.error (.debugInfo e), s)) :
    P ((Attempt.read x >>= f).run.run s) := by
  cases x with
  | ok a => exact hok a rfl
  | error e => exact herr e rfl

theorem enumLookup_addAnonymousEnum (hname : d.name? = .ok none) (width : UInt8) {s : Session}
    (hother : ∀ first c, d.enumerators.head? = some first → first.name = .ok c →
      ∀ other, s.host.enumWithConstant? c = some other → describesEnum s.host other d = .ok false) :
    EnumLookup s d width ((addAnonymousEnum width).run.run s) := by
  unfold addAnonymousEnum
  rw [Attempt.run_get_bind]
  split
  · rename_i hadd
    exact .added ⟨fun _ hstated => (nomatch hname.symm.trans hstated), fun _ => ⟨rfl, hother⟩⟩ hadd
  · exact .failed

theorem enumLookup_anonymousEnum (hname : d.name? = .ok none) (width : UInt8) (s : Session) :
    EnumLookup s d width ((anonymousEnum d width).run.run s) := by
  have hadd := enumLookup_addAnonymousEnum hname width (s := s)
  unfold anonymousEnum
  split
  · rename_i first hfirst
    refine run_read_bind (fun constant hconstant => ?_) fun _ _ => .failed
    have hsole {first' : Die} {c : String} (hhead : d.enumerators.head? = some first')
        (hc : first'.name = .ok c) : c = constant := by
      rw [hfirst] at hhead
      cases hhead
      rw [hconstant] at hc
      cases hc
      rfl
    rw [Attempt.run_get_bind]
    dsimp only
    split
    · rename_i id hfind
      refine run_read_bind (fun same hsame => ?_) fun _ _ => .failed
      split
      · rename_i htrue
        refine .found ⟨htrue ▸ hsame, fun _ hstated => (nomatch hname.symm.trans hstated), ?_⟩
        intro _ first' c hhead hc
        rw [hsole hhead hc, hfind]
      · rename_i hfalse
        refine hadd fun first' c hhead hc other hother => ?_
        rw [hsole hhead hc, hfind] at hother
        cases hother
        rw [hsame, eq_false_of_ne_true hfalse]
    · rename_i hnone
      refine hadd fun first' c hhead hc other hother => ?_
      rw [hsole hhead hc] at hother
      exact (hnone other hother).elim
  · rename_i hnone
    exact hadd fun first' c hhead => absurd hhead (hnone first')

theorem enumLookup_enumFor (d : Die) (width : UInt8) (s : Session) :
    EnumLookup s d width ((i.enumFor d width).run.run s) := by
  refine run_read_bind (fun name? hname => ?_) fun _ _ => .failed
  cases name? with
  | none => exact enumLookup_anonymousEnum hname width s
  | some stated =>
    have hnot : d.name? ≠ .ok none := by simp [hname]
    have hstated {name : String} (h : d.name? = .ok (some name)) : name = stated := by
      rw [hname] at h
      cases h
      rfl
    refine Registry.run_reuseOrAdd (P := EnumLookup s d width) ?_ ?_ (fun _ => .failed)
      fun _ _ _ _ _ => .failed
    · intro id k _ hreaches hfind hfits
      exact .found ⟨Except.mapError_eq_ok.mp hfits,
        fun name h => ⟨k, hstated h ▸ hreaches, hstated h ▸ hfind⟩, fun h => (hnot h).elim⟩
    · intro id h k _ hreaches _ hadd
      exact .added ⟨fun name h => ⟨_, hstated h ▸ hreaches, by rw [hstated h]⟩,
        fun h => (hnot h).elim⟩ hadd

/-! ## The enumeration of an entry -/

/-- The name under which no enumeration can be added belongs to something complete. -/
theorem Sound.taken_of_addEnum? (hs : i.Sound σ) {name : String} {width : UInt8}
    (h : σ.session.host.addEnum? (some name) width = none) :
    ∃ o t, σ.session.host.database.namedType? name = some o ∧
      σ.session.host.database.numberedType? o = some t ∧ t.shape ≠ .incomplete := by
  let db := σ.session.host.database
  have hnone : db.addEnum? (some name) width = none := by
    simpa [db, Host.addEnum?, hs.accepts] using h
  cases hreserve : db.reserve? (some name) .enum (.enum ⟨db.enums.size⟩) with
  | none => exact Database.taken_of_reserve? hreserve
  | some => simp [Database.addEnum?, hreserve] at hnone

/-- A name that is passed over in a lookup is barred. -/
theorem Sound.barsEnum_of_passes (hs : i.Sound σ) (hd : d.Enumerates ps) {width : UInt8}
    {name : String} (hb : σ.session.host.database.EnumsBacked)
    (h : (enumRegistry d width).Passes σ.session name) :
    σ.session.host.database.BarsEnum ps name := by
  unfold Registry.Passes at h
  split at h
  · rename_i id hfind
    obtain ⟨o, t, hnamed, ht, hshape⟩ := Database.of_findEnum? hfind
    refine ⟨o, t, hnamed, ht, by simp [hshape], fun id' hid => ?_⟩
    rw [hshape] at hid
    cases hid
    obtain ⟨e, he, -⟩ := hb o t id ht hshape
    refine ⟨e, he, fun hagrees => ?_⟩
    have hfits : describesEnum σ.session.host id d = .ok false := Except.mapError_eq_ok.mp h
    rw [hs.describesEnum_eq hd he, hagrees] at hfits
    cases hfits
  · rename_i hfind
    obtain ⟨o, t, hnamed, ht, hcomplete⟩ := hs.taken_of_addEnum? h
    refine ⟨o, t, hnamed, ht, hcomplete, fun id hid => ?_⟩
    have hfound : σ.session.host.database.findEnum? name = some id := by
      simp [Database.findEnum?, hnamed, ht, hid]
    change σ.session.host.database.findEnum? name = none at hfind
    rw [hfind] at hfound
    cases hfound

/-- An entry has the enumeration that is found for it. -/
theorem FindsEnum.counts (hs : i.Sound σ) (hd : d.Enumerates ps) {width : UInt8} {id : EnumId}
    (h : FindsEnum σ.session d width id) {e : EnumDef}
    (he : σ.session.host.database.enumDef? id = some e) : Counts σ.session d ps e.ordinal where
  enumOf := hs.enumOf_of_describesEnum hd he h.describes
  named hb stated hstated := by
    obtain ⟨k, hreaches, hfind⟩ := h.named stated hstated
    obtain ⟨o, t, ho, ht, hshape⟩ := Database.of_findEnum? hfind
    obtain ⟨e', he', hordinal⟩ := hb o t id ht hshape
    rw [he] at he'
    cases he'
    exact ⟨k, hordinal ▸ ho, fun j hj => hs.barsEnum_of_passes hd hb (hreaches j hj)⟩
  unnamed hnone c hc := by
    obtain ⟨first, hfirst, hname⟩ := hd.head? hc
    exact .inl ⟨id, e, h.unnamed hnone first c hfirst hname, he, rfl⟩

/-- What adding an enumeration with its constants comes to. -/
structure NewEnum (h : Host) (name : Option String) (id : EnumId) (e : EnumDef)
    (constants : List (String × UInt64)) (h' : Host) : Prop where
  grows : h.Grows h'
  retains : h.database.Retains h'.database
  fresh : name = none → h.database.numberedType? e.ordinal = none
  next : id = ⟨h.database.enums.size⟩
  aliases : ∀ {o name target}, h'.database.numberedType? o = some ⟨name, .typedef target⟩ →
    h.database.numberedType? o = some ⟨name, .typedef target⟩
  names : Database.Names name e.name
  definition : h'.database.enumDef? id = some e
  constants : (Listing.names constants).Nodup → e.constants = constants
  backed_of : h'.database.EnumsBacked → h.database.EnumsBacked

theorem newEnum {h h' : Host} (hc : h.database.Coherent) {name : Option String} {width : UInt8}
    {id : EnumId} (hadd : h.addEnum? name width = some (id, h'))
    (constants : List (String × UInt64)) :
    ∃ e, NewEnum h name id e constants (addConstants id constants h') := by
  have hgrows := Host.grows_addEnum? hc hadd
  have hgrows' := hgrows.trans (grows_addConstants id constants)
  obtain ⟨db, hdb, rfl⟩ := Host.addEnum?_eq_some hadd
  obtain ⟨e, hadds⟩ := Database.addsEnum hc hdb
  have he : db.enumDef? id = some e := by rw [hadds.enumDef?, if_pos rfl]
  obtain ⟨cs, hget, hdistinct, hall⟩ := enumDef?_addConstants (h := { h with database := db }) he
    (by simp [hadds.constants, Listing.names]) constants
  obtain ⟨htypes, hothers⟩ := addConstants_others id constants { h with database := db }
  have hnumbered := Database.numberedType?_congr htypes
  refine ⟨{ e with constants := cs }, hgrows', hadds.retains hget hdistinct hothers hnumbered,
    hadds.fresh, hadds.id, fun {o name target} ht => ?_, hadds.names, hget, fun hnodup => ?_,
    hadds.backed_of hget hothers hnumbered⟩
  · rw [hnumbered, hadds.types] at ht
    split at ht
    · cases ht
    · exact ht
  · rw [hadds.constants] at hall
    exact hall hnodup

/-- An entry for which a new enumeration is made has that one. -/
theorem LacksEnum.counts (hs : i.Sound σ) (hd : d.Enumerates ps) {width : UInt8}
    {name : Option String} (hlacks : LacksEnum σ.session d width name) {id : EnumId} {e : EnumDef}
    {h : Host} (hnew : NewEnum σ.session.host name id e ps h) :
    Counts { σ.session with host := h } d ps e.ordinal where
  enumOf := by
    refine ⟨id, e, hnew.definition, rfl, ?_⟩
    rw [Listing.ofEnum, hnew.constants hd.names]
    exact (Listing.agrees_iff_perm hd.names).mpr (.refl _)
  named hb stated hstated := by
    obtain ⟨k, hreaches, rfl⟩ := hlacks.named stated hstated
    have hc := hnew.grows.extends_.coherent hs.coherent
    have hname : e.name = underscored k stated := hnew.names
    refine ⟨k, hname ▸ hc.named (hc.enums hnew.definition), fun j hj => ?_⟩
    exact hnew.retains.barsEnum hnew.grows.extends_.database
      (hs.barsEnum_of_passes hd (hnew.backed_of hb) (hreaches j hj))
  unnamed hnone c hc := by
    obtain ⟨hname, hother⟩ := hlacks.unnamed hnone
    obtain ⟨first, hfirst, hfirstName⟩ := hd.head? hc
    cases hfind : σ.session.host.database.enumWithConstant? c with
    | none =>
      have hget := hnew.definition
      rw [hnew.next] at hget
      have hmem : c ∈ Listing.names e.constants := by
        rw [hnew.constants hd.names]
        exact List.mem_of_head? hc
      exact .inl ⟨_, e, Database.enumWithConstant?_next hfind hnew.retains.enums hget hmem, hget,
        rfl⟩
    | some other =>
      obtain ⟨e', he'⟩ := Database.enumDef?_of_enumWithConstant? hfind
      have hdescribes := hother first c hfirst hfirstName other hfind
      rw [hs.describesEnum_eq hd he'] at hdescribes
      refine .inr ⟨hnew.retains.misleads ⟨other, e', hfind, he', by simp [hdescribes]⟩,
        fun x htype => ?_⟩
      obtain ⟨-, -, t, ht, -⟩ := hs.types (x := x) htype
      rw [hnew.fresh hname] at ht
      cases ht

end Importer

end DebugSymbols
