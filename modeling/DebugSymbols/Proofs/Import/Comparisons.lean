import DebugSymbols.Proofs.Dwarf.Placement
import DebugSymbols.Proofs.Import.Denotation
import DebugSymbols.Proofs.SortedMap
import Mathlib.Data.List.Nodup

/-!
What a comparison of structures says.  `Listing.of_agrees` and `agrees_of_subset` are about
listings in general; for structures they mean that whatever describes an entry has all of its
members (`of_describesRecord`), that a structure with just the members of an entry describes it
(`describesRecord_of_subset`), and that entries of one kind with the same members are not told
apart (`describesStruct_congr`).
-/

namespace DebugSymbols

namespace Listing

/-! ## Listings -/

/-- The names in a list of pairs. -/
def names (pairs : List (String × UInt64)) : List String := pairs.map (·.1)

/-- There is something in the list, and the names tell the pairs apart. -/
def Proper (pairs : List (String × UInt64)) : Prop := pairs ≠ [] ∧ (names pairs).Nodup

theorem mem_names {pairs : List (String × UInt64)} {name : String} {value : UInt64}
    (h : (name, value) ∈ pairs) : name ∈ names pairs :=
  List.mem_map.mpr ⟨_, h, rfl⟩

theorem isEmpty_iff (w : Working) : w.toList.isEmpty = true ↔ ∀ name, w.get? name = none := by
  rw [List.isEmpty_iff]
  constructor
  · intro hnil name
    cases hget : w.get? name with
    | none => rfl
    | some value =>
      rw [← SortedMap.mem_toList, hnil] at hget
      cases hget
  · intro hnone
    cases hlist : w.toList with
    | nil => rfl
    | cons pair rest =>
      obtain ⟨name, value⟩ := pair
      have hget : w.get? name = some value := SortedMap.mem_toList.mp (by simp [hlist])
      rw [hnone] at hget
      cases hget

/-- What is left without the first name is what the rest lists. -/
theorem listed_erase_iff {rest : List (String × UInt64)} {w : Working} {first : String} {v : UInt64}
    (hfirst : w.get? first = some v) (hfresh : first ∉ names rest) :
    (∀ name value, (w.erase first).get? name = some value ↔ (name, value) ∈ rest) ↔
      ∀ name value, w.get? name = some value ↔ (name, value) ∈ (first, v) :: rest := by
  refine forall_congr' fun name => forall_congr' fun value => ?_
  rw [SortedMap.get?_erase, List.mem_cons, Prod.mk.injEq]
  by_cases hname : name = first
  · subst hname
    have hnot : (name, value) ∉ rest := fun hmem => hfresh (mem_names hmem)
    simp [hfirst, hnot, eq_comm]
  · simp [hname]

/-- Everything can be drained just if it is listed, once each. -/
theorem drain_iff {failure : Option DebugInfo.Error} {pairs : List (String × UInt64)}
    {w : Working} : drain failure pairs w = .ok true ↔
      failure = none ∧ (names pairs).Nodup ∧
        ∀ name value, w.get? name = some value ↔ (name, value) ∈ pairs := by
  induction pairs generalizing w with
  | nil =>
    cases failure with
    | some e => simp [drain]
    | none =>
      simp only [drain, Except.ok.injEq, isEmpty_iff, names, List.map_nil, List.nodup_nil, true_and,
        List.not_mem_nil, iff_false]
      exact ⟨fun h name value => by simp [h name],
        fun h name => Option.eq_none_iff_forall_ne_some.mpr (h name)⟩
  | cons pair rest ih =>
    obtain ⟨first, v⟩ := pair
    unfold drain
    split
    · rename_i hfirst
      rw [ih]
      refine and_congr_right fun _ => ⟨fun ⟨hnodup, hrest⟩ => ?_, fun ⟨hnodup, hall⟩ => ?_⟩
      · have hfresh : first ∉ names rest := by
          intro hmem
          obtain ⟨⟨name, value⟩, hpair, rfl⟩ := List.mem_map.mp hmem
          have herased := (hrest name value).mpr hpair
          simp [SortedMap.get?_erase] at herased
        exact ⟨List.nodup_cons.mpr ⟨hfresh, hnodup⟩, (listed_erase_iff hfirst hfresh).mp hrest⟩
      · obtain ⟨hfresh, hnodup'⟩ := List.nodup_cons.mp hnodup
        exact ⟨hnodup', (listed_erase_iff hfirst hfresh).mpr hall⟩
    · rename_i hfirst
      simp only [Except.ok.injEq, Bool.false_eq_true, false_iff]
      rintro ⟨-, -, hall⟩
      exact hfirst ((hall first v).mpr (by simp))

theorem mem_of_foldl_insert {pairs : List (String × UInt64)} {w : Working} {name : String}
    {value : UInt64}
    (h : (pairs.foldl (fun w (name, value) => w.insert name value) w).get? name = some value) :
    (name, value) ∈ pairs ∨ w.get? name = some value := by
  induction pairs generalizing w with
  | nil => exact .inr h
  | cons pair rest ih =>
    rcases ih h with hmem | hget
    · exact .inl (List.mem_cons_of_mem _ hmem)
    · rw [SortedMap.get?_insert] at hget
      split at hget
      · rename_i heq
        cases hget
        exact .inl (by simp [heq])
      · exact .inr hget

/-- A name that is listed has some value, and no other than those listed for it. -/
theorem get?_foldl_insert {pairs : List (String × UInt64)} {w : Working} {name : String}
    (h : name ∈ names pairs ∨ (w.get? name).isSome) :
    ((pairs.foldl (fun w (name, value) => w.insert name value) w).get? name).isSome := by
  induction pairs generalizing w with
  | nil => exact h.resolve_left nofun
  | cons pair rest ih =>
    refine ih ?_
    rw [SortedMap.get?_insert]
    split
    · exact .inr rfl
    · rename_i hne
      exact h.imp_left fun hmem => (List.mem_cons.mp hmem).resolve_left hne

/-- What agrees with a listing has each of its names once, with a value that is listed there. -/
theorem of_agrees {a b : Listing} (ha : a.pairs ≠ []) (h : a.agrees b = .ok true) :
    b.failure = none ∧ Proper b.pairs ∧ b.pairs ⊆ a.pairs := by
  obtain ⟨w, hload, hdrain⟩ := Except.bind_eq_ok h
  obtain ⟨hfailure, hnodup, hall⟩ := drain_iff.mp hdrain
  unfold load at hload
  split at hload
  · cases hload
    refine ⟨hfailure, ⟨?_, hnodup⟩, fun ⟨name, value⟩ hmem => ?_⟩
    · obtain ⟨⟨name, value⟩, hmem⟩ := List.exists_mem_of_ne_nil _ ha
      obtain ⟨value', hget⟩ :=
        Option.isSome_iff_exists.mp (get?_foldl_insert (.inl (mem_names hmem)))
      exact List.ne_nil_of_mem ((hall name value').mp hget)
    · exact (mem_of_foldl_insert ((hall name value).mpr hmem)).resolve_right nofun
  · cases hload

/-- Listings of the same pairs agree if the second lists no name twice. -/
theorem agrees_of_subset {ps qs : List (String × UInt64)} (hqs : (names qs).Nodup)
    (hsub : ps ⊆ qs) (hsub' : qs ⊆ ps) :
    (complete ps).agrees (complete qs) = .ok true := by
  refine drain_iff.mpr ⟨rfl, hqs, fun name value => ⟨fun hget => ?_, fun hmem => ?_⟩⟩
  · exact hsub ((mem_of_foldl_insert hget).resolve_right nofun)
  · obtain ⟨value', hget⟩ := Option.isSome_iff_exists.mp
      (get?_foldl_insert (w := .empty) (.inl (mem_names (hsub' hmem))))
    have hmem' := hsub ((mem_of_foldl_insert hget).resolve_right nofun)
    have hsame := List.inj_on_of_nodup_map hqs hmem hmem' rfl
    cases hsame
    exact hget

end Listing

/-! ## Members of entries -/

namespace Die

/-- The names of the members of an entry, and where they lie. -/
def places (d : Die) : Die.Access (List (String × UInt64)) :=
  d.layout.map (·.map fun m => (m.name, m.offset))

theorem places_of_layout {d : Die} {layout : List MemberLayout} (h : d.layout = .ok layout) :
    d.places = .ok (layout.map fun m => (m.name, m.offset)) := by
  rw [places, h]
  rfl

/-- The first entry is of the kind of the second, and has all of its members. -/
def Includes (c x : Die) : Prop :=
  c.tag = x.tag ∧ ∃ ps qs, c.places = .ok ps ∧ x.places = .ok qs ∧ qs ⊆ ps

theorem exists_layout {d : Die} {ps : List (String × UInt64)} (h : d.places = .ok ps) :
    ∃ layout, d.layout = .ok layout ∧ ps = layout.map fun m => (m.name, m.offset) := by
  unfold places at h
  cases hlayout : d.layout with
  | error e =>
    rw [hlayout] at h
    cases h
  | ok layout =>
    rw [hlayout] at h
    exact ⟨layout, rfl, (Except.ok.inj h).symm⟩

theorem ofStructDie_eq {d : Die} {ps : List (String × UInt64)} (h : d.places = .ok ps) :
    Listing.ofStructDie d = .complete ps := by
  obtain ⟨layout, hlayout, rfl⟩ := exists_layout h
  rw [Listing.ofStructDie, hlayout]

/-- An entry whose listing agrees with another has its members, and they can be read. -/
theorem places_of_agrees {l : Listing} (hl : l.pairs ≠ []) {d : Die}
    (h : l.agrees (.ofStructDie d) = .ok true) :
    ∃ ps, d.places = .ok ps ∧ Listing.Proper ps ∧ ps ⊆ l.pairs := by
  obtain ⟨hfailure, hproper, hsub⟩ := Listing.of_agrees hl h
  unfold Listing.ofStructDie at hfailure hproper hsub
  split at hfailure
  · rename_i layout hlayout
    rw [hlayout] at hproper hsub
    exact ⟨_, places_of_layout hlayout, hproper, hsub⟩
  · cases hfailure

/-- All members of a union lie at its start. -/
theorem offset_of_union {d : Die} (htag : d.tag = .unionType) {layout : List MemberLayout}
    (hlayout : d.layout = .ok layout) {m : MemberLayout} (hm : m ∈ layout) : m.offset = 0 := by
  unfold Die.layout at hlayout
  generalize d.children.filter (·.tag = .member) = members at hlayout
  rw [htag] at hlayout
  induction members generalizing layout with
  | nil =>
    cases hlayout
    cases hm
  | cons member rest ih =>
    rw [List.mapM_cons] at hlayout
    obtain ⟨first, hfirst, hlayout⟩ := Except.bind_eq_ok hlayout
    obtain ⟨others, hothers, hlayout⟩ := Except.bind_eq_ok hlayout
    cases hlayout
    rcases List.mem_cons.mp hm with rfl | hm
    · unfold MemberLayout.ofDie at hfirst
      obtain ⟨stated, -, hfirst⟩ := Except.bind_eq_ok hfirst
      obtain ⟨name, -, hfirst⟩ := Except.bind_eq_ok hfirst
      obtain ⟨type, -, hfirst⟩ := Except.bind_eq_ok hfirst
      cases hfirst
      rfl
    · exact ih hm hothers

end Die

/-! ## Comparisons -/

/-- The kind of entry that a structure or union comes from. -/
def kindOf (def_ : StructDef) : Tag := if def_.isUnion then .unionType else .structureType

theorem of_sameLayout {a b : Die} (h : sameLayout a b = .ok true) :
    a.Includes b ∧ ∃ ps, b.places = .ok ps ∧ Listing.Proper ps := by
  unfold sameLayout at h
  split at h
  · rename_i htags
    obtain ⟨layout, hlayout, h⟩ := Except.bind_eq_ok h
    have hplaces := Die.places_of_layout hlayout
    rw [Die.ofStructDie_eq hplaces] at h
    split at h
    · cases h
    · rename_i hempty
      have hne : (layout.map fun m => (m.name, m.offset)) ≠ [] := by simpa using hempty
      obtain ⟨qs, hqs, hproper, hsub⟩ := Die.places_of_agrees (l := .complete _) hne h
      exact ⟨⟨htags.1, _, qs, hplaces, hqs, hsub⟩, qs, hqs, hproper⟩
  · cases h

theorem sameLayout_self {d : Die} (htag : d.tag.isRecord = true) {ps : List (String × UInt64)}
    (hplaces : d.places = .ok ps) (hproper : Listing.Proper ps) : sameLayout d d = .ok true := by
  obtain ⟨layout, hlayout, rfl⟩ := Die.exists_layout hplaces
  have hne : layout.isEmpty = false := by simpa using hproper.1
  unfold sameLayout
  rw [if_pos ⟨rfl, isRecord_iff.mp htag⟩, hlayout, Die.ofStructDie_eq hplaces]
  change (if layout.isEmpty = true then _ else _) = _
  rw [if_neg (by simp [hne])]
  exact Listing.agrees_of_subset hproper.2 (List.Subset.refl _) (List.Subset.refl _)

theorem sameLayout_congr {o a b : Die} (htag : a.tag = b.tag) {ps : List (String × UInt64)}
    (ha : a.places = .ok ps) (hb : b.places = .ok ps) : sameLayout o a = sameLayout o b := by
  unfold sameLayout
  rw [htag, Die.ofStructDie_eq ha, Die.ofStructDie_eq hb]

theorem of_describesRecord {h : Host} {id : StructId} {d : Die} {def_ : StructDef}
    (hget : h.structDef? id = some def_) (hd : describesRecord h id d = .ok true) :
    d.tag = kindOf def_ ∧ ∃ ps, d.places = .ok ps ∧ Listing.Proper ps ∧
      ps ⊆ (Listing.ofStruct def_).pairs := by
  unfold describesRecord at hd
  rw [hget] at hd
  change (if d.tag = kindOf def_ ∧ def_.members ≠ [] then _ else _) = _ at hd
  split at hd
  · rename_i hfit
    have hne : (Listing.ofStruct def_).pairs ≠ [] := by
      simpa [Listing.ofStruct, Listing.complete] using hfit.2
    exact ⟨hfit.1, Die.places_of_agrees hne hd⟩
  · cases hd

/-- A structure that has just the members of an entry describes it. -/
theorem describesRecord_of_subset {h : Host} {id : StructId} {d : Die} {def_ : StructDef}
    (hget : h.structDef? id = some def_) (htag : d.tag = kindOf def_)
    {ps : List (String × UInt64)} (hplaces : d.places = .ok ps) (hproper : Listing.Proper ps)
    (hsub : (Listing.ofStruct def_).pairs ⊆ ps) (hsub' : ps ⊆ (Listing.ofStruct def_).pairs) :
    describesRecord h id d = .ok true := by
  have hne : def_.members ≠ [] := by
    obtain ⟨pair, hpair⟩ := List.exists_mem_of_ne_nil _ hproper.1
    obtain ⟨member, hmember, -⟩ := List.mem_map.mp (hsub' hpair)
    exact List.ne_nil_of_mem hmember
  unfold describesRecord
  rw [hget]
  change (if d.tag = kindOf def_ ∧ def_.members ≠ [] then _ else _) = _
  rw [if_pos ⟨htag, hne⟩, Die.ofStructDie_eq hplaces]
  exact Listing.agrees_of_subset hproper.2 hsub hsub'

theorem describesRecord_congr {h : Host} {id : StructId} {a b : Die} (htag : a.tag = b.tag)
    {ps : List (String × UInt64)} (ha : a.places = .ok ps) (hb : b.places = .ok ps) :
    describesRecord h id a = describesRecord h id b := by
  unfold describesRecord
  rw [htag, Die.ofStructDie_eq ha, Die.ofStructDie_eq hb]

/-- Entries of one kind that have the same members are not told apart. -/
theorem Importer.describesStruct_congr (i : Importer) (s : Session) (id : StructId) {a b : Die}
    (htag : a.tag = b.tag) {ps : List (String × UInt64)} (ha : a.places = .ok ps)
    (hb : b.places = .ok ps) : i.describesStruct s id a = i.describesStruct s id b := by
  unfold describesStruct
  simp only [describesRecord_congr htag ha hb, fun o => sameLayout_congr (o := o) htag ha hb]

end DebugSymbols
