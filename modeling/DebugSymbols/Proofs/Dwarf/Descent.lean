import DebugSymbols.Proofs.Dwarf.Levels
import DebugSymbols.Proofs.Dwarf.Lookup
import Mathlib.Data.Nat.Find

/-!
Walks over the tree of a unit.  Taking nodes off a stack on which each leaves its first child and
its next sibling meets the root and what lies below it in the order of the entries
(`preorder_eq_range`), so that the entries of a program are met by ascending offsets
(`ascending_dies`).
-/

namespace DebugSymbols

namespace DieTree

/-! ## The nodes that come next -/

variable {level : Nat → Nat} {n k c depth : Nat} {stack : List Nat}

theorem Next.unique {c' : Nat} (h : Next level k depth c) (h' : Next level k depth c') :
    c = c' := by
  obtain ⟨hk, hlevel, hbelow⟩ := h
  obtain ⟨hk', hlevel', hbelow'⟩ := h'
  rcases Nat.lt_trichotomy c c' with hlt | heq | hgt
  · have := hbelow' c hk hlt
    omega
  · exact heq
  · have := hbelow c' hk' hgt
    omega

theorem next_succ_iff (h : depth < level (k + 1)) :
    Next level k depth c ↔ Next level (k + 1) depth c := by
  constructor
  · rintro ⟨hk, hlevel, hbelow⟩
    have hne : c ≠ k + 1 := by
      rintro rfl
      omega
    exact ⟨by omega, hlevel, fun j hj hc => hbelow j (by omega) hc⟩
  · rintro ⟨hk, hlevel, hbelow⟩
    refine ⟨by omega, hlevel, fun j hj hc => ?_⟩
    rcases Nat.lt_or_eq_of_le (Nat.succ_le_of_lt hj) with hlt | rfl
    · exact hbelow j hlt hc
    · exact h

theorem next_succ (h : level (k + 1) = depth) : Next level k depth (k + 1) :=
  ⟨Nat.lt_succ_self k, h, fun j hj hc => by omega⟩

theorem not_next (h : level (k + 1) < depth) : ¬ Next level k depth c := by
  rintro ⟨hk, hlevel, hbelow⟩
  rcases Nat.lt_or_eq_of_le (Nat.succ_le_of_lt hk) with hlt | rfl
  · have := hbelow (k + 1) (Nat.lt_succ_self k) hlt
    omega
  · exact absurd hlevel (Nat.ne_of_lt h)

/-- The nodes that come next after a node at the levels up to one of them, the deepest first. -/
inductive Waiting (level : Nat → Nat) (n k : Nat) : Nat → List Nat → Prop
  | nil : Waiting level n k 0 []
  | skip {depth : Nat} {stack : List Nat} : (∀ c, c < n → ¬ Next level k (depth + 1) c) →
      Waiting level n k depth stack → Waiting level n k (depth + 1) stack
  | next {depth c : Nat} {stack : List Nat} : c < n → Next level k (depth + 1) c →
      Waiting level n k depth stack → Waiting level n k (depth + 1) (c :: stack)

namespace Waiting

/-- Below the level of the node that follows, the same nodes come next after that one. -/
theorem shift (h : Waiting level n k depth stack) (hlt : depth < level (k + 1)) :
    Waiting level n (k + 1) depth stack := by
  induction h with
  | nil => exact .nil
  | skip hnone _ ih =>
    exact .skip (fun c hc hnext => hnone c hc ((next_succ_iff hlt).mpr hnext)) (ih (by omega))
  | next hc hnext _ ih => exact .next hc ((next_succ_iff hlt).mp hnext) (ih (by omega))

/-- If no deeper node follows, the one that follows is on top of the stack. -/
theorem top (h : Waiting level n k depth stack) (hn : k + 1 < n) (hpos : 0 < level (k + 1))
    (hle : level (k + 1) ≤ depth) :
    ∃ rest, stack = (k + 1) :: rest ∧ Waiting level n (k + 1) (level (k + 1) - 1) rest := by
  induction h with
  | nil => omega
  | @skip depth stack hnone hrest ih =>
    rcases Nat.lt_or_eq_of_le hle with hlt | heq
    · exact ih (by omega)
    · exact absurd (next_succ heq) (hnone _ hn)
  | @next depth c stack hc hnext hrest ih =>
    rcases Nat.lt_or_eq_of_le hle with hlt | heq
    · exact absurd hnext (not_next hlt)
    · obtain rfl := hnext.unique (next_succ heq)
      rw [heq, Nat.add_sub_cancel]
      exact ⟨stack, rfl, hrest.shift (by omega)⟩

/-- In front of a node at the top nothing is left. -/
theorem eq_nil (h : Waiting level n k depth stack) (hend : k + 1 < n → level (k + 1) = 0) :
    stack = [] := by
  induction h with
  | nil => rfl
  | skip _ _ ih => exact ih
  | @next depth c stack hc hnext _ _ =>
    have hkc := hnext.1
    have hzero := hend (by omega)
    exact absurd hnext (not_next (by omega))

end Waiting

/-! ## The part below the root -/

/-- The first node and those behind it down to where the next tree starts. -/
structure Extent (level : Nat → Nat) (n e : Nat) : Prop where
  pos : 0 < e
  le : e ≤ n
  below : ∀ {j}, 0 < j → j < e → 0 < level j
  stop : e < n → level e = 0

theorem exists_extent (level : Nat → Nat) (hn : 0 < n) : ∃ e, Extent level n e := by
  by_cases h : ∃ e, 0 < e ∧ e < n ∧ level e = 0
  · obtain ⟨hpos, hlt, hzero⟩ := Nat.find_spec h
    refine ⟨Nat.find h, hpos, Nat.le_of_lt hlt, fun {j} hj hje => ?_, fun _ => hzero⟩
    have := Nat.find_min h hje
    by_contra hle
    exact this ⟨hj, by omega, by omega⟩
  · refine ⟨n, hn, Nat.le_refl n, fun {j} hj hjn => ?_, fun hlt => absurd hlt (Nat.lt_irrefl n)⟩
    by_contra hle
    exact h ⟨j, hj, hjn, by omega⟩

/-- A node that lies below one of the part belongs to the part. -/
theorem Extent.of_encloses {e p : Nat} (hx : Extent level n e) (hk : k < n) (hp : p < e)
    (h : Encloses level p k) : k < e := by
  obtain ⟨hpk, hlevel, hbelow⟩ := h
  by_contra hle
  have hzero := hx.stop (by omega)
  rcases Nat.lt_or_eq_of_le (Nat.le_of_not_lt hle) with hlt | rfl
  · have := hbelow e hp hlt
    omega
  · omega

namespace Levelled

variable {nodes : Array Node} (h : Levelled level nodes)

include h

/-- A node lies at most one level below the one before it. -/
theorem level_succ_le (hk : k + 1 < nodes.size) : level (k + 1) ≤ level k + 1 := by
  have hnode := Array.getElem?_eq_getElem hk
  cases hparent : nodes[k + 1].parent with
  | none =>
    rw [h.orphan hnode hparent]
    exact Nat.zero_le _
  | some p =>
    obtain ⟨hp, hlevel, hbelow⟩ := (h.parent hnode).mp hparent
    rcases Nat.lt_or_eq_of_le (Nat.le_of_lt_succ hp) with hlt | rfl
    · have := hbelow k hlt (Nat.lt_succ_self k)
      omega
    · omega

theorem waiting_sibling {node : Node} (hnode : nodes[k]? = some node)
    (hw : Waiting level nodes.size k (level k - 1) stack) :
    Waiting level nodes.size k (level k) (node.nextSibling.toList ++ stack) := by
  have hnext {c : Nat} := h.nextSibling (c := c) hnode
  cases hlevel : level k with
  | zero =>
    rw [hlevel] at hw hnext
    cases hsibling : node.nextSibling with
    | none => exact hw
    | some c => exact absurd (hnext.mp hsibling).2.1 (Nat.lt_irrefl 0)
  | succ depth =>
    rw [hlevel] at hw hnext
    cases hsibling : node.nextSibling with
    | none =>
      refine .skip (fun c hc hnext' => ?_) hw
      have := hnext.mpr ⟨hc, Nat.succ_pos _, hnext'⟩
      rw [hsibling] at this
      cases this
    | some c =>
      obtain ⟨hc, -, hnext'⟩ := hnext.mp hsibling
      exact .next hc hnext' hw

end Levelled

/-- Taking nodes off a stack, each of which leaves its first child and its next sibling there,
empties the stack. -/
inductive Unwinds (t : DieTree) : List Nat → List Nat → Prop
  | done : Unwinds t [] []
  | pop {k : Nat} {node : Node} {stack popped : List Nat} : t.node? k = some node →
      Unwinds t (node.firstChild.toList ++ (node.nextSibling.toList ++ stack)) popped →
      Unwinds t (k :: stack) (k :: popped)

/-- From any node on, the rest of the part is met in the order of the nodes. -/
theorem Levelled.unwinds {t : DieTree} {e : Nat} (h : Levelled level t.nodes)
    (hx : Extent level t.nodes.size e) (hk : k < e)
    (hw : Waiting level t.nodes.size k (level k - 1) stack) :
    Unwinds t (k :: stack) (List.range' k (e - k)) := by
  have hle := hx.le
  obtain ⟨count, hcount⟩ : ∃ count, e - k = count + 1 := ⟨e - k - 1, by omega⟩
  rw [hcount]
  induction count generalizing k stack with
  | zero =>
    have hnode : t.nodes[k]? = some t.nodes[k] := Array.getElem?_eq_getElem (by omega)
    have hstop : k + 1 < t.nodes.size → level (k + 1) = 0 := by
      rw [show k + 1 = e by omega]
      exact hx.stop
    have hempty := (h.waiting_sibling hnode hw).eq_nil hstop
    refine .pop hnode ?_
    cases hfirst : t.nodes[k].firstChild with
    | none =>
      rw [hempty]
      exact .done
    | some c =>
      obtain ⟨rfl, hc, hlevel⟩ := (h.firstChild hnode).mp hfirst
      have := hstop hc
      omega
  | succ count ih =>
    have hnode : t.nodes[k]? = some t.nodes[k] := Array.getElem?_eq_getElem (by omega)
    have hk' : k + 1 < e := by omega
    have hsibling := h.waiting_sibling hnode hw
    refine .pop hnode ?_
    cases hfirst : t.nodes[k].firstChild with
    | some c =>
      obtain ⟨rfl, hc, hlevel⟩ := (h.firstChild hnode).mp hfirst
      refine ih hk' ?_ (by omega)
      rw [hlevel, Nat.add_sub_cancel]
      exact hsibling.shift (by omega)
    | none =>
      -- The next node is a sibling of this one, or of one of those above.
      have hup : level (k + 1) ≤ level k := by
        have := h.level_succ_le (k := k) (by omega)
        by_contra hdeeper
        have hfirst' := (h.firstChild hnode).mpr ⟨rfl, by omega, by omega⟩
        rw [hfirst] at hfirst'
        cases hfirst'
      obtain ⟨rest, heq, hrest⟩ := hsibling.top (by omega) (hx.below (by omega) hk') hup
      rw [heq]
      exact ih hk' hrest (by omega)

theorem Unwinds.visit_eq {t : DieTree} {popped : List Nat} (h : Unwinds t stack popped)
    {fuel : Nat} (hfuel : popped.length ≤ fuel) : t.visit fuel stack = popped := by
  induction h generalizing fuel with
  | done => cases fuel <;> rfl
  | pop hnode _ ih =>
    cases fuel with
    | zero => simp at hfuel
    | succ fuel =>
      rw [visit, hnode, ← ih (Nat.le_of_succ_le_succ hfuel)]
      simp

section

variable {t : DieTree} {e : Nat} (h : Levelled level t.nodes) (hzero : level 0 = 0)
  (hx : Extent level t.nodes.size e)

include h hzero hx

theorem unwinds_range : Unwinds t [0] (List.range e) := by
  have hroot : Waiting level t.nodes.size 0 (level 0 - 1) [] := by
    rw [hzero]
    exact .nil
  rw [List.range_eq_range']
  exact h.unwinds hx hx.pos hroot

theorem preorder_eq_range : t.preorder = List.range e :=
  (unwinds_range h hzero hx).visit_eq (by simpa using hx.le)

end

end DieTree

/-! ## Units -/

namespace CompilationUnit

open DieTree

/-- The entry is the root of the unit, or lies below one that is reached. -/
inductive Reaches (u : CompilationUnit) : Die → Prop
  | root {d : Die} : u.die? 0 = some d → Reaches u d
  | child {k : Nat} {d p : Die} : u.die? k = some d → d.parent? = some p → Reaches u p →
      Reaches u d

/-- A walk over the unit, which lies between the two places, meets what is reached from the
root, by ascending offsets. -/
structure Walkable (u : CompilationUnit) (low high : Nat) : Prop where
  root : ∃ d, u.die? 0 = some d
  unwinds : u.tree.Unwinds [0] u.tree.preorder
  mem_dies : ∀ {d}, d ∈ u.dies ↔ u.Reaches d
  ascending : u.dies.Pairwise fun d d' => d.offset.toNat < d'.offset.toNat
  inside : ∀ {d}, d ∈ u.dies → low ≤ d.offset.toNat ∧ d.offset.toNat < high

variable {u : CompilationUnit} {level : Nat → Nat} {e : Nat}

theorem mem_dies_iff_lt (h : u.tree.preorder = List.range e) {d : Die} :
    d ∈ u.dies ↔ ∃ k < e, u.die? k = some d := by
  rw [dies, h]
  simp only [List.mem_filterMap, List.mem_range]

theorem exists_die? {k : Nat} (hk : k < u.tree.nodes.size) : ∃ d, u.die? k = some d := by
  simp [die?, node?, hk]

/-- What is reached from the root is the part below it. -/
theorem lt_extent_iff (h : Levelled level u.tree.nodes)
    (hx : Extent level u.tree.nodes.size e) {d : Die} :
    (∃ k < e, u.die? k = some d) ↔ u.Reaches d := by
  constructor
  · rintro ⟨k, hk, hd⟩
    induction k using Nat.strongRecOn generalizing d with
    | ind k ih =>
      obtain ⟨-, rfl, hnode⟩ := DebugInfo.die?_index hd
      rcases Nat.eq_zero_or_pos d.index with hzero | hpos
      · rw [hzero] at hd
        exact .root hd
      · cases hparent : d.node.parent with
        | none =>
          have := h.orphan hnode hparent
          exact absurd (hx.below hpos hk) (by omega)
        | some p =>
          have hp := ((h.parent hnode).mp hparent).1
          have hle := hx.le
          obtain ⟨parent, hdie⟩ := exists_die? (u := u) (k := p) (by omega)
          refine .child hd ?_ (ih p hp (by omega) hdie)
          rw [Die.parent?, (DebugInfo.die?_index hd).1, hparent]
          exact hdie
  · intro hreach
    induction hreach with
    | root hd => exact ⟨0, hx.pos, hd⟩
    | @child k d p hd hparent _ ih =>
      obtain ⟨j, hj, hp⟩ := ih
      obtain ⟨hunit, rfl, hnode⟩ := DebugInfo.die?_index hd
      obtain ⟨j', hj', hp'⟩ := Option.bind_eq_some_iff.mp hparent
      rw [hunit] at hp'
      obtain rfl : j' = j :=
        (DebugInfo.die?_index hp').2.1.symm.trans (DebugInfo.die?_index hp).2.1
      have hlt := (Array.getElem?_eq_some_iff.mp hnode).1
      exact ⟨d.index, hx.of_encloses hlt hj ((h.parent hnode).mp hj'), hd⟩

/-- Where the entries of a unit start. -/
theorem offsets_of_decode {s : Sections} {h : UnitHeader} {low high : Nat}
    (hd : decode s h = .ok u) (hs : h.Spans low high) (hhigh : high < UInt64.size) :
    ∃ positions : List Nat, positions.Pairwise (· < ·) ∧
      ∀ k d, u.die? k = some d → ∃ p, positions[k]? = some p ∧
        d.offset.toNat = low + p ∧ p < high - low := by
  obtain ⟨hheader, table, -, htree⟩ := decode_eq_ok hd
  obtain ⟨positions, hpairs, hbelow, hpositions⟩ := Entry.ascending_readAll h table
  have hnodes := (offsets_ofEntries? htree).trans hpositions
  refine ⟨positions.map (h.entriesStart + ·), ?_, fun k d hdie => ?_⟩
  · exact hpairs.map _ fun _ _ hlt => Nat.add_lt_add_left hlt _
  · obtain ⟨hunit, rfl, hnode⟩ := DebugInfo.die?_index hdie
    have hget : (u.tree.nodes.toList.map (·.offset))[d.index]? = some d.node.offset := by
      rw [List.getElem?_map, Array.getElem?_toList, hnode]
      rfl
    rw [hnodes, List.getElem?_map] at hget
    obtain ⟨p, hp, hoffset⟩ := Option.map_eq_some_iff.mp hget
    have hlt := hbelow p (List.mem_of_getElem? hp)
    have hentries := hs.entries
    refine ⟨h.entriesStart + p, by rw [List.getElem?_map, hp]; rfl, ?_, by omega⟩
    rw [Die.offset, hunit, hheader, ← hoffset, hs.offset_toNat hhigh (by omega)]

/-- A unit that can be read can be walked over. -/
theorem walkable_of_decode {s : Sections} {h : UnitHeader} {low high : Nat}
    (hd : decode s h = .ok u) (hs : h.Spans low high) (hhigh : high < UInt64.size) :
    u.Walkable low high := by
  obtain ⟨-, table, hsome, htree⟩ := decode_eq_ok hd
  have hlevel := levelled_ofEntries? htree
  have hzero := levelAt_levels_zero (Entry.readAll h table).entries.toList
  have hsize : 0 < u.tree.nodes.size := by
    have := congrArg List.length (offsets_ofEntries? htree)
    simp only [List.length_map, Array.length_toList] at this
    omega
  obtain ⟨e, hx⟩ := exists_extent _ hsize
  have hpreorder := preorder_eq_range hlevel hzero hx
  obtain ⟨positions, hpairs, hoffsets⟩ := offsets_of_decode hd hs hhigh
  refine ⟨exists_die? hsize, hpreorder ▸ unwinds_range hlevel hzero hx,
    (mem_dies_iff_lt hpreorder).trans (lt_extent_iff hlevel hx), ?_, fun hmem => ?_⟩
  · rw [dies, hpreorder]
    refine List.pairwise_filterMap.mpr (List.pairwise_lt_range.imp fun hjk d hj d' hk => ?_)
    obtain ⟨p, hp, hoffset, -⟩ := hoffsets _ d hj
    obtain ⟨p', hp', hoffset', -⟩ := hoffsets _ d' hk
    obtain ⟨hlt, rfl⟩ := List.getElem?_eq_some_iff.mp hp
    obtain ⟨hlt', rfl⟩ := List.getElem?_eq_some_iff.mp hp'
    have := List.pairwise_iff_getElem.mp hpairs _ _ hlt hlt' hjk
    omega
  · obtain ⟨k, -, hk⟩ := (mem_dies_iff_lt hpreorder).mp hmem
    obtain ⟨p, -, hoffset, hp⟩ := hoffsets k _ hk
    omega

end CompilationUnit

/-! ## All units -/

namespace DebugInfo

/-- What a walk over a unit meets. -/
def Slot.dies (slot : Slot) : List Die :=
  match slot.content with
  | .ok u => u.dies
  | .error _ => []

/-- What a walk over all units meets. -/
def dies (info : DebugInfo) : List Die := info.units.toList.flatMap Slot.dies

theorem mem_dies {info : DebugInfo} {d : Die} : d ∈ info.dies ↔ info.Walks d := by
  simp only [dies, Walks, List.mem_flatMap, Array.mem_toList_iff, Slot.dies]
  refine exists_congr fun slot => and_congr_right fun _ => ?_
  cases slot.content with
  | ok u => simp
  | error e => simp

variable {s : Sections} {info : DebugInfo}

/-- The units that can be read can be walked over. -/
theorem walkable_of_decode (h : decode s = .ok info) (hsize : s.entries.size < UInt64.size)
    {slot : Slot} (hslot : slot ∈ info.units) {u : CompilationUnit}
    (hu : slot.content = .ok u) : ∃ low high, u.Walkable low high := by
  obtain ⟨-, hdecode⟩ := header_of_content h hslot hu
  obtain ⟨low, high, hspans, hhigh⟩ := spans_of_mem h hsize hslot
  exact ⟨low, high, CompilationUnit.walkable_of_decode hdecode hspans hhigh⟩

/-- All units are walked over by ascending offsets. -/
theorem ascending_dies (h : decode s = .ok info) (hsize : s.entries.size < UInt64.size) :
    info.dies.Pairwise fun d d' => d.offset < d'.offset := by
  obtain ⟨headers, high, hhigh, ht, hunits⟩ := units_of_decode h
  rw [dies, hunits, List.flatMap_map]
  have hbound : high < UInt64.size := by omega
  clear hhigh hunits h
  suffices hall : ∀ low, UnitHeader.Tiled headers low high →
      ((headers.flatMap fun h => Slot.dies ⟨h, CompilationUnit.decode s h⟩).Pairwise
        fun d d' => d.offset < d'.offset) ∧
      ∀ d ∈ headers.flatMap fun h => Slot.dies ⟨h, CompilationUnit.decode s h⟩,
        low ≤ d.offset.toNat from (hall 0 ht).1
  clear ht
  intro low ht
  induction ht with
  | nil => simp
  | @cons header rest low middle high hspans htiled ih =>
    obtain ⟨hrest, hbehind⟩ := ih hbound
    have hle := htiled.le
    have hnonempty := hspans.nonempty
    have hfirst : (Slot.dies ⟨header, CompilationUnit.decode s header⟩).Pairwise
          (fun d d' => d.offset < d'.offset) ∧
        ∀ d ∈ Slot.dies ⟨header, CompilationUnit.decode s header⟩,
          low ≤ d.offset.toNat ∧ d.offset.toNat < middle := by
      cases hu : CompilationUnit.decode s header with
      | error e => simp [Slot.dies]
      | ok u =>
        have hwalk := CompilationUnit.walkable_of_decode hu hspans (by omega)
        exact ⟨hwalk.ascending.imp UInt64.lt_iff_toNat_lt.mpr, fun d hd => hwalk.inside hd⟩
    rw [List.flatMap_cons]
    refine ⟨List.pairwise_append.mpr ⟨hfirst.1, hrest, fun d hd d' hd' => ?_⟩, fun d hd => ?_⟩
    · have := hfirst.2 d hd
      have := hbehind d' hd'
      rw [UInt64.lt_iff_toNat_lt]
      omega
    · rcases List.mem_append.mp hd with hd | hd
      · exact (hfirst.2 d hd).1
      · have := hbehind d hd
        omega

end DebugInfo

end DebugSymbols
