import DebugSymbols.Proofs.Dwarf.Descent
import Mathlib.Logic.Relation

/-!
The tree that is built from entries.  `Mirrors` says what it looks like: who is whose parent
follows from the levels of the entries alone, and the other links, the lists of children and the
walk from the root follow from who is whose parent.

Main statement: `ofEntries?_mirrors`.
-/

namespace DebugSymbols.DieTree

/-! ## Relatives by number -/

def parent? (t : DieTree) (k : Nat) : Option Nat := (t.node? k).bind (·.parent)

def firstChild? (t : DieTree) (k : Nat) : Option Nat := (t.node? k).bind (·.firstChild)

def nextSibling? (t : DieTree) (k : Nat) : Option Nat := (t.node? k).bind (·.nextSibling)

/-- What a tree of entries looks like. -/
structure Mirrors (t : DieTree) (entries : List Entry) : Prop where
  contents : t.nodes.toList.map Node.contents =
    entries.map fun e => (e.offset, e.tag, e.attributes)
  /-- The parent of a node is the last one before it that lies a level above. -/
  parent : ∀ {k p}, t.parent? k = some p ↔
    k < t.nodes.size ∧ Encloses (levelAt (levels entries)) p k
  top : ∀ {k}, k < t.nodes.size → (t.parent? k = none ↔ levelAt (levels entries) k = 0)
  firstChild : ∀ {k c}, t.firstChild? k = some c ↔
    t.parent? c = some k ∧ ∀ j < c, t.parent? j ≠ some k
  nextSibling : ∀ {k c}, t.nextSibling? k = some c ↔
    ∃ p, t.parent? k = some p ∧ t.parent? c = some p ∧ k < c ∧
      ∀ j, k < j → j < c → t.parent? j ≠ some p
  /-- The children are listed in the order of the nodes. -/
  children : ∀ k, t.children k = (List.range t.nodes.size).filter (t.parent? · = some k)
  precedes : ∀ {k p}, t.parent? k = some p → p < k
  /-- A walk that takes nodes off a stack with the root on it meets what lies below the root, each
  node once, by ascending offsets. -/
  unwinds : 0 < t.nodes.size → t.Unwinds [0] t.preorder
  mem_preorder : ∀ {k}, k ∈ t.preorder ↔
    k < t.nodes.size ∧ Relation.ReflTransGen (fun p c => t.parent? c = some p) 0 k
  nodup : t.preorder.Nodup
  ascending : (t.preorder.filterMap t.node?).Pairwise fun n n' => n.offset < n'.offset

/-! ## Links -/

variable {t : DieTree} {level : Nat → Nat} {k p c : Nat}

/-- What is known of the link of a node that there is. -/
theorem bind_node?_iff {link : Node → Option Nat} {P : Prop}
    (h : ∀ {node}, t.nodes[k]? = some node → (link node = some c ↔ P)) :
    (t.node? k).bind link = some c ↔ k < t.nodes.size ∧ P := by
  rw [Option.bind_eq_some_iff]
  constructor
  · rintro ⟨node, hnode, hlink⟩
    exact ⟨(Array.getElem?_eq_some_iff.mp hnode).1, (h hnode).mp hlink⟩
  · rintro ⟨hk, hP⟩
    have hnode := Array.getElem?_eq_getElem hk
    exact ⟨_, hnode, (h hnode).mpr hP⟩

section

variable (h : Levelled level t.nodes)

include h

theorem parent?_eq_some : t.parent? k = some p ↔ k < t.nodes.size ∧ Encloses level p k :=
  bind_node?_iff h.parent

theorem parent?_eq_none (hk : k < t.nodes.size) : t.parent? k = none ↔ level k = 0 := by
  have hnode := Array.getElem?_eq_getElem hk
  have hparent : t.parent? k = t.nodes[k].parent := by simp [parent?, node?, hnode]
  constructor
  · intro hnone
    exact h.orphan hnode (hparent.symm.trans hnone)
  · intro hzero
    refine Option.eq_none_iff_forall_ne_some.mpr fun p hp => ?_
    obtain ⟨-, -, hlevel, -⟩ := (parent?_eq_some h).mp hp
    omega

/-- If a node has children, the one that follows it is the first of them. -/
theorem parent?_succ (hc : t.parent? c = some k) : t.parent? (k + 1) = some k := by
  obtain ⟨hsize, hkc, hlevel, hbelow⟩ := (parent?_eq_some h).mp hc
  have hk : k + 1 < t.nodes.size := by omega
  have hle := h.level_succ_le hk
  refine (parent?_eq_some h).mpr ⟨hk, Nat.lt_succ_self k, ?_, fun j hj hj' => by omega⟩
  rcases Nat.lt_or_eq_of_le (Nat.succ_le_of_lt hkc) with hlt | rfl
  · have := hbelow (k + 1) (Nat.lt_succ_self k) hlt
    omega
  · exact hlevel

theorem firstChild?_eq_some :
    t.firstChild? k = some c ↔ t.parent? c = some k ∧ ∀ j < c, t.parent? j ≠ some k := by
  rw [firstChild?, bind_node?_iff h.firstChild]
  constructor
  · rintro ⟨-, rfl, hc, hlevel⟩
    refine ⟨(parent?_eq_some h).mpr ⟨hc, Nat.lt_succ_self k, hlevel, fun j _ _ => by omega⟩, ?_⟩
    intro j hj hparent
    obtain ⟨-, hkj, -⟩ := (parent?_eq_some h).mp hparent
    omega
  · rintro ⟨hparent, hnone⟩
    obtain ⟨hc, hkc, hlevel, -⟩ := (parent?_eq_some h).mp hparent
    have heq : c = k + 1 := by
      by_contra hne
      exact hnone (k + 1) (by omega) (parent?_succ h hparent)
    exact ⟨by omega, heq, hc, hlevel⟩

theorem nextSibling?_eq_some :
    t.nextSibling? k = some c ↔
      ∃ p, t.parent? k = some p ∧ t.parent? c = some p ∧ k < c ∧
        ∀ j, k < j → j < c → t.parent? j ≠ some p := by
  rw [nextSibling?, bind_node?_iff h.nextSibling]
  constructor
  · rintro ⟨hk, hc, hpos, hkc, hsame, hbelow⟩
    obtain ⟨p, hp⟩ : ∃ p, t.parent? k = some p := by
      refine Option.ne_none_iff_exists'.mp fun hnone => ?_
      have := (parent?_eq_none h hk).mp hnone
      omega
    obtain ⟨-, hpk, hlevel, habove⟩ := (parent?_eq_some h).mp hp
    refine ⟨p, hp, (parent?_eq_some h).mpr ⟨hc, by omega, by omega, fun j hpj hjc => ?_⟩, hkc,
      fun j hkj hjc hj => ?_⟩
    · rcases Nat.lt_trichotomy j k with hlt | rfl | hgt
      · exact habove j hpj hlt
      · omega
      · have := hbelow j hgt hjc
        omega
    · obtain ⟨-, -, hlevel', -⟩ := (parent?_eq_some h).mp hj
      have := hbelow j hkj hjc
      omega
  · rintro ⟨p, hk, hc, hkc, hnone⟩
    obtain ⟨hksize, hpk, hlevel, -⟩ := (parent?_eq_some h).mp hk
    obtain ⟨hcsize, hpc, hlevel', hbelow⟩ := (parent?_eq_some h).mp hc
    refine ⟨hksize, hcsize, by omega, hkc, by omega, fun j hkj hjc => ?_⟩
    have hdeeper := hbelow j (by omega) hjc
    by_contra hle
    -- A node between the two on their level would have the same parent.
    refine hnone j hkj hjc ((parent?_eq_some h).mpr ⟨by omega, by omega, by omega, ?_⟩)
    exact fun i hpi hij => hbelow i hpi (by omega)

/-- A child without a next sibling is the last. -/
theorem parent?_ne_of_nextSibling? (hc : t.parent? c = some p) (hnone : t.nextSibling? c = none)
    {j : Nat} (hj : c < j) : t.parent? j ≠ some p := by
  intro hparent
  have hlater : ∃ j, c < j ∧ t.parent? j = some p := ⟨j, hj, hparent⟩
  obtain ⟨hlt, hfirst⟩ := Nat.find_spec hlater
  have hnext : t.nextSibling? c = some (Nat.find hlater) :=
    (nextSibling?_eq_some h).mpr ⟨p, hc, hfirst, hlt,
      fun i hci hi hsame => Nat.find_min hlater hi ⟨hci, hsame⟩⟩
  rw [hnone] at hnext
  cases hnext

/-- A node without a first child has none. -/
theorem parent?_ne_of_firstChild? (hnone : t.firstChild? k = none) (c : Nat) :
    t.parent? c ≠ some k := by
  intro hparent
  have hfirst : t.firstChild? k = some (k + 1) :=
    (firstChild?_eq_some h).mpr ⟨parent?_succ h hparent, fun j hj hsame => by
      have := ((parent?_eq_some h).mp hsame).2.1
      omega⟩
  rw [hnone] at hfirst
  cases hfirst

end

/-! ## Children -/

/-- Numbers that are filtered out may be left out of the range. -/
theorem filter_range'_skip {q : Nat → Bool} {a b n : Nat} (hab : a ≤ b) (hbn : b ≤ n)
    (hnone : ∀ j, a ≤ j → j < b → q j = false) :
    (List.range' a (n - a)).filter q = (List.range' b (n - b)).filter q := by
  have hsplit := List.range'_append_1 (s := a) (m := b - a) (n := n - b)
  rw [show a + (b - a) = b by omega, show b - a + (n - b) = n - a by omega] at hsplit
  rw [← hsplit, List.filter_append, List.filter_eq_nil_iff.mpr, List.nil_append]
  intro j hj
  obtain ⟨hle, hlt⟩ := List.mem_range'_1.mp hj
  simp [hnone j hle (by omega)]

section

variable (h : Levelled level t.nodes)

include h

/-- Following the links from a child lists it and all later children. -/
theorem siblingsFrom_eq {fuel : Nat} (hc : t.parent? c = some p)
    (hfuel : t.nodes.size - c ≤ fuel) :
    t.siblingsFrom fuel (some c) =
      (List.range' c (t.nodes.size - c)).filter (t.parent? · = some p) := by
  induction fuel generalizing c with
  | zero =>
    have hsize := ((parent?_eq_some h).mp hc).1
    omega
  | succ fuel ih =>
    have hsize := ((parent?_eq_some h).mp hc).1
    have hrange : List.range' c (t.nodes.size - c) =
        c :: List.range' (c + 1) (t.nodes.size - (c + 1)) := by
      rw [show t.nodes.size - c = t.nodes.size - (c + 1) + 1 by omega, List.range'_succ]
    rw [siblingsFrom, hrange, List.filter_cons_of_pos (by simpa using hc)]
    congr 1
    change t.siblingsFrom fuel (t.nextSibling? c) = _
    cases hnext : t.nextSibling? c with
    | some c' =>
      obtain ⟨p', hp', hc', hlt, hbetween⟩ := (nextSibling?_eq_some h).mp hnext
      obtain rfl : p' = p := Option.some.inj (hp'.symm.trans hc)
      have hsize' := ((parent?_eq_some h).mp hc').1
      rw [ih hc' (by omega)]
      refine (filter_range'_skip hlt (by omega) fun j hj hj' => ?_).symm
      simpa using hbetween j hj hj'
    | none =>
      rw [filter_range'_skip hsize (Nat.le_refl _) fun j hj _ => by
        simpa using parent?_ne_of_nextSibling? h hc hnext hj]
      cases fuel <;> simp [siblingsFrom]

theorem children_eq (k : Nat) :
    t.children k = (List.range t.nodes.size).filter (t.parent? · = some k) := by
  have hall : (List.range t.nodes.size).filter (t.parent? · = some k) =
      (List.range' 0 (t.nodes.size - 0)).filter (t.parent? · = some k) := by
    rw [List.range_eq_range', Nat.sub_zero]
  rw [children, hall]
  change t.siblingsFrom t.nodes.size (t.firstChild? k) = _
  cases hfirst : t.firstChild? k with
  | some c =>
    obtain ⟨hc, hbefore⟩ := (firstChild?_eq_some h).mp hfirst
    have hsize := ((parent?_eq_some h).mp hc).1
    rw [siblingsFrom_eq h hc (Nat.sub_le _ _)]
    refine (filter_range'_skip (Nat.zero_le c) (Nat.le_of_lt hsize) fun j _ hj => ?_).symm
    simpa using hbefore j hj
  | none =>
    rw [filter_range'_skip (Nat.zero_le _) (Nat.le_refl _) fun j _ _ => by
      simpa using parent?_ne_of_firstChild? h hfirst j]
    cases t.nodes.size <;> simp [siblingsFrom]

/-! ## The walk from the root -/

/-- The part below the root is what has the root as an ancestor, and the root. -/
theorem lt_extent_iff_descends {e : Nat} (hx : Extent level t.nodes.size e) :
    k < e ↔
      k < t.nodes.size ∧ Relation.ReflTransGen (fun p c => t.parent? c = some p) 0 k := by
  constructor
  · intro hk
    have hle := hx.le
    refine ⟨by omega, ?_⟩
    induction k using Nat.strongRecOn with
    | ind k ih =>
      rcases Nat.eq_zero_or_pos k with rfl | hpos
      · exact .refl
      · have hbelow := hx.below hpos hk
        obtain ⟨p, hp⟩ : ∃ p, t.parent? k = some p := by
          refine Option.ne_none_iff_exists'.mp fun hnone => ?_
          have := (parent?_eq_none h (by omega)).mp hnone
          omega
        have hpk := ((parent?_eq_some h).mp hp).2.1
        exact .tail (ih p hpk (by omega)) hp
  · rintro ⟨-, hdescends⟩
    induction hdescends with
    | refl => exact hx.pos
    | tail _ hparent ih =>
      obtain ⟨hk, hencloses⟩ := (parent?_eq_some h).mp hparent
      exact hx.of_encloses hk ih hencloses

end

/-- The nodes below the root are met by their offsets, if the entries come in this order. -/
theorem ascending_preorder {e : Nat} (hpreorder : t.preorder = List.range e)
    (hoffsets : (t.nodes.toList.map (·.offset)).Pairwise (· < ·)) :
    (t.preorder.filterMap t.node?).Pairwise fun n n' => n.offset < n'.offset := by
  rw [hpreorder]
  refine List.pairwise_filterMap.mpr (List.pairwise_lt_range.imp fun hjk n hn n' hn' => ?_)
  obtain ⟨hj, rfl⟩ := Array.getElem?_eq_some_iff.mp hn
  obtain ⟨hk, rfl⟩ := Array.getElem?_eq_some_iff.mp hn'
  have := List.pairwise_iff_getElem.mp hoffsets _ _ (by simpa using hj) (by simpa using hk) hjk
  simpa using this

theorem mirrors_ofEntries? {entries : List Entry} (h : ofEntries? entries = some t)
    (hoffsets : entries.Pairwise fun e e' => e.offset < e'.offset) : t.Mirrors entries := by
  have hlevel := levelled_ofEntries? h
  have hzero := levelAt_levels_zero entries
  have hoffsets' : (t.nodes.toList.map (·.offset)).Pairwise (· < ·) := by
    rw [offsets_ofEntries? h]
    exact hoffsets.map _ fun _ _ hlt => hlt
  have hwalk : ∃ e, t.preorder = List.range e ∧ (0 < t.nodes.size → t.Unwinds [0] t.preorder) ∧
      ∀ {k}, k < e ↔
        k < t.nodes.size ∧ Relation.ReflTransGen (fun p c => t.parent? c = some p) 0 k := by
    rcases Nat.eq_zero_or_pos t.nodes.size with hempty | hsome
    · refine ⟨0, ?_, fun hpos => by omega, fun {k} => by omega⟩
      rw [preorder, hempty]
      rfl
    · obtain ⟨e, hx⟩ := exists_extent _ hsome
      have hpreorder := preorder_eq_range hlevel hzero hx
      exact ⟨e, hpreorder, fun _ => hpreorder ▸ unwinds_range hlevel hzero hx,
        lt_extent_iff_descends hlevel hx⟩
  obtain ⟨e, hpreorder, hunwinds, hextent⟩ := hwalk
  constructor
  · exact contents_ofEntries? h
  · exact parent?_eq_some hlevel
  · exact parent?_eq_none hlevel
  · exact firstChild?_eq_some hlevel
  · exact nextSibling?_eq_some hlevel
  · exact children_eq hlevel
  · exact fun hp => ((parent?_eq_some hlevel).mp hp).2.1
  · exact hunwinds
  · intro k
    rw [hpreorder, List.mem_range]
    exact hextent
  · rw [hpreorder]
    exact List.nodup_range
  · exact ascending_preorder hpreorder hoffsets'

/-! ## The limit -/

theorem Growth.add_eq_none {g : Growth} {e : Entry} :
    g.add e = none ↔ maxDepth ≤ g.levelOf e := by
  unfold add levelOf
  dsimp only
  split <;> simp_all

theorem foldlM_eq_none {entries : List Entry} {g : Growth} :
    entries.foldlM Growth.add g = none ↔
      ∃ depth ∈ levelsFrom (g.path.size - 1) entries, maxDepth ≤ depth := by
  induction entries generalizing g with
  | nil => simp [levelsFrom]
  | cons e rest ih =>
    rw [List.foldlM_cons, levelsFrom, ← g.levelOf_eq]
    cases hadd : g.add e with
    | none =>
      have hdeep := Growth.add_eq_none.mp hadd
      exact iff_of_true rfl ⟨_, List.mem_cons_self, hdeep⟩
    | some g' =>
      have hpath : (g'.path.size : Int) - 1 = g.levelOf e := by
        rw [Growth.size_path_add hadd]
        omega
      have hshallow : ¬ maxDepth ≤ g.levelOf e := fun hdeep => by
        rw [Growth.add_eq_none.mpr hdeep] at hadd
        cases hadd
      change rest.foldlM Growth.add g' = none ↔ _
      rw [ih, hpath]
      simp [hshallow]

theorem ofEntries?_eq_none {entries : List Entry} :
    ofEntries? entries = none ↔ ∃ depth ∈ levels entries, maxDepth ≤ depth := by
  rw [ofEntries?, Option.map_eq_none_iff, foldlM_eq_none]
  rfl

theorem malformed_of_addressOf? {s : Sections} {width : Nat} {base : UInt64}
    {value : AttributeValue} {e : DebugInfo.Error}
    (h : CompilationUnit.addressOf? s width base value = .error e) : e = .malformed := by
  unfold CompilationUnit.addressOf? at h
  split at h
  · cases h
  · split at h
    · cases h
    · cases h
      rfl
  · cases h

/-- A unit that is not malformed otherwise is rejected if its tree cannot be built. -/
theorem decode_of_tooDeep {s : Sections} {h : UnitHeader} {table : List Abbreviation}
    (htable : Abbreviation.readTable.runAt s.abbreviations h.abbreviations.toNat = some table)
    (hnone : ofEntries? (Entry.readAll h table).entries.toList = none)
    (hwell : CompilationUnit.decode s h ≠ .error .malformed) :
    CompilationUnit.decode s h = .error .treeTooDeep := by
  refine Or.resolve_left ?_ hwell
  unfold CompilationUnit.decode
  rw [htable]
  dsimp only
  split
  · split
    · exact .inl rfl
    · rw [hnone]
      split
      · rename_i value _
        cases haddress : CompilationUnit.addressOf? s _ _ value with
        | error e =>
          obtain rfl := malformed_of_addressOf? haddress
          exact .inl rfl
        | ok a => exact .inr rfl
      · exact .inr rfl
  · exact .inl rfl

/-- Entries that do not nest too deep form a tree that looks as their levels say.  If they do,
they form none, and a unit that has them is rejected for it unless it is malformed otherwise. -/
theorem ofEntries?_mirrors {entries : List Entry}
    (hoffsets : entries.Pairwise fun e e' => e.offset < e'.offset) :
    ((∀ depth ∈ levels entries, depth < maxDepth) →
      ∃ t, ofEntries? entries = some t ∧ t.Mirrors entries) ∧
    ((∃ depth ∈ levels entries, maxDepth ≤ depth) →
      ofEntries? entries = none ∧
        ∀ s h table, Abbreviation.readTable.runAt s.abbreviations h.abbreviations.toNat =
            some table → (Entry.readAll h table).entries.toList = entries →
          CompilationUnit.decode s h ≠ .error .malformed →
            CompilationUnit.decode s h = .error .treeTooDeep) := by
  constructor
  · intro hshallow
    cases htree : ofEntries? entries with
    | some t => exact ⟨t, rfl, mirrors_ofEntries? htree hoffsets⟩
    | none =>
      obtain ⟨depth, hmem, hdeep⟩ := ofEntries?_eq_none.mp htree
      exact absurd (hshallow depth hmem) (Nat.not_lt.mpr hdeep)
  · intro hdeep
    have hnone := ofEntries?_eq_none.mpr hdeep
    refine ⟨hnone, fun s h table htable hentries hwell => ?_⟩
    exact decode_of_tooDeep htable (hentries ▸ hnone) hwell

/-- Six entries on levels 0, 1, 2, 1, 0 and 1.  The fifth closes more levels than are open. -/
def closingMore : List Entry :=
  [⟨0, 11, .other 0x11, []⟩, ⟨1, 12, .structureType, []⟩, ⟨1, 15, .member, []⟩,
    ⟨-1, 19, .baseType, []⟩, ⟨-5, 24, .structureType, []⟩, ⟨1, 30, .member, []⟩]

/-- The last two entries do not lie below the root, and are not met on a walk from there. -/
theorem ofEntries?_mirrors_closingMore :
    levels closingMore = [0, 1, 2, 1, 0, 1] ∧
      ∃ t, ofEntries? closingMore = some t ∧ t.Mirrors closingMore ∧ t.children 0 = [1, 3] ∧
        t.parent? 4 = none ∧ t.parent? 5 = some 4 ∧ t.preorder = [0, 1, 2, 3] := by
  have hlevels : levels closingMore = [0, 1, 2, 1, 0, 1] := by decide
  have hoffsets : closingMore.Pairwise fun e e' => e.offset < e'.offset := by decide
  have hshallow : ∀ depth ∈ levels closingMore, depth < maxDepth := by
    rw [hlevels]
    decide
  have hrun : (ofEntries? closingMore).any (fun t =>
      decide (t.children 0 = [1, 3] ∧ t.parent? 4 = none ∧ t.parent? 5 = some 4 ∧
        t.preorder = [0, 1, 2, 3])) = true := by
    decide +kernel
  obtain ⟨t, htree, hmirrors⟩ := (ofEntries?_mirrors hoffsets).1 hshallow
  rw [htree] at hrun
  exact ⟨hlevels, t, htree, hmirrors, of_decide_eq_true hrun⟩

end DebugSymbols.DieTree
