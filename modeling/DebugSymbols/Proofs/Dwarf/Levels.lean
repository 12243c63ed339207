import DebugSymbols.Dwarf.DieTree
import Mathlib.Tactic.ByContra

/-!
The links of a tree of entries, told by how deep its nodes lie.  Every node of a tree that is
built from entries has a level, and the levels alone decide who is whose parent, first child and
next sibling (`levelled_ofEntries?`).
-/

namespace DebugSymbols.DieTree

/-! ## Relatives -/

/-- The first node behind `k` that does not lie below the depth lies on it. -/
def Next (level : Nat → Nat) (k depth c : Nat) : Prop :=
  k < c ∧ level c = depth ∧ ∀ j, k < j → j < c → depth < level j

/-- The node `p` is the last one before `k` that lies one level above it. -/
def Encloses (level : Nat → Nat) (p k : Nat) : Prop :=
  p < k ∧ level k = level p + 1 ∧ ∀ j, p < j → j < k → level p < level j

/-- The links between nodes are those that follow from their levels.  Nodes at the top are no
siblings of each other. -/
structure Levelled (level : Nat → Nat) (nodes : Array Node) : Prop where
  parent : ∀ {k p node}, nodes[k]? = some node → (node.parent = some p ↔ Encloses level p k)
  orphan : ∀ {k node}, nodes[k]? = some node → node.parent = none → level k = 0
  firstChild : ∀ {k c node}, nodes[k]? = some node →
    (node.firstChild = some c ↔ c = k + 1 ∧ c < nodes.size ∧ level c = level k + 1)
  nextSibling : ∀ {k c node}, nodes[k]? = some node →
    (node.nextSibling = some c ↔ c < nodes.size ∧ 0 < level k ∧ Next level k (level k) c)

/-- The path holds the last node of each level that is still open. -/
structure Growth.Levelled (level : Nat → Nat) (g : Growth) : Prop where
  nodes : DieTree.Levelled level g.nodes
  path : ∀ {depth k}, g.path[depth]? = some k ↔
    k < g.nodes.size ∧ level k = depth ∧ ∀ j, k < j → j < g.nodes.size → depth < level j

/-! ## One more node -/

/-- The levels with that of another node. -/
def setLevel (level : Nat → Nat) (n depth : Nat) : Nat → Nat :=
  fun k => if k = n then depth else level k

variable {level : Nat → Nat} {n depth k p c : Nat}

theorem setLevel_self : setLevel level n depth n = depth := if_pos rfl

theorem setLevel_of_lt (h : k < n) : setLevel level n depth k = level k :=
  if_neg (Nat.ne_of_lt h)

theorem encloses_setLevel (hk : k < n) :
    Encloses (setLevel level n depth) p k ↔ Encloses level p k := by
  unfold Encloses
  refine and_congr_right fun hp => ?_
  rw [setLevel_of_lt hk, setLevel_of_lt (Nat.lt_trans hp hk)]
  refine and_congr_right fun _ => forall_congr' fun j => forall_congr' fun _ =>
    forall_congr' fun hj => ?_
  rw [setLevel_of_lt (Nat.lt_trans hj hk)]

theorem next_setLevel {on : Nat} (hc : c < n) :
    Next (setLevel level n depth) k on c ↔ Next level k on c := by
  unfold Next
  refine and_congr_right fun _ => ?_
  rw [setLevel_of_lt hc]
  refine and_congr_right fun _ => forall_congr' fun j => forall_congr' fun _ =>
    forall_congr' fun hj => ?_
  rw [setLevel_of_lt (Nat.lt_trans hj hc)]

/-- Above the level of a new node, what was the last node at a depth still is. -/
theorem last_setLevel_of_lt {on : Nat} (hlt : on < depth) :
    (k < n + 1 ∧ setLevel level n depth k = on ∧
        ∀ j, k < j → j < n + 1 → on < setLevel level n depth j) ↔
      k < n ∧ level k = on ∧ ∀ j, k < j → j < n → on < level j := by
  constructor
  · rintro ⟨hk, hlevel, hbelow⟩
    rcases Nat.lt_or_eq_of_le (Nat.le_of_lt_succ hk) with hk | rfl
    · refine ⟨hk, (setLevel_of_lt hk).symm.trans hlevel, fun j hkj hj => ?_⟩
      have hdeeper := hbelow j hkj (Nat.lt_succ_of_lt hj)
      rwa [setLevel_of_lt hj] at hdeeper
    · rw [setLevel_self] at hlevel
      omega
  · rintro ⟨hk, hlevel, hbelow⟩
    refine ⟨Nat.lt_succ_of_lt hk, (setLevel_of_lt hk).trans hlevel, fun j hkj hj => ?_⟩
    rcases Nat.lt_or_eq_of_le (Nat.le_of_lt_succ hj) with hj | rfl
    · rw [setLevel_of_lt hj]
      exact hbelow j hkj hj
    · rwa [setLevel_self]

/-- From its level on, a new node closes what was open. -/
theorem last_setLevel_of_le {on : Nat} (hle : depth ≤ on) :
    (k < n + 1 ∧ setLevel level n depth k = on ∧
        ∀ j, k < j → j < n + 1 → on < setLevel level n depth j) ↔ k = n ∧ on = depth := by
  constructor
  · rintro ⟨hk, hlevel, hbelow⟩
    rcases Nat.lt_or_eq_of_le (Nat.le_of_lt_succ hk) with hk | rfl
    · have hdeeper := hbelow n hk (Nat.lt_succ_self n)
      rw [setLevel_self] at hdeeper
      omega
    · exact ⟨rfl, hlevel.symm.trans setLevel_self⟩
  · rintro ⟨rfl, rfl⟩
    exact ⟨Nat.lt_succ_self k, setLevel_self, fun j hkj hj => by omega⟩

namespace Growth.Levelled

variable {g : Growth} (h : g.Levelled level)

include h

/-- A new node comes next after the one that is last on the path at its level. -/
theorem next_iff (hk : k < g.nodes.size) :
    Next (setLevel level g.nodes.size depth) k (level k) g.nodes.size ↔
      g.path[depth]? = some k := by
  rw [h.path]
  constructor
  · rintro ⟨-, hlevel, hbelow⟩
    rw [setLevel_self] at hlevel
    refine ⟨hk, hlevel.symm, fun j hkj hj => ?_⟩
    have hj' := hbelow j hkj hj
    rwa [setLevel_of_lt hj, ← hlevel] at hj'
  · rintro ⟨-, hlevel, hbelow⟩
    refine ⟨hk, setLevel_self.trans hlevel.symm, fun j hkj hj => ?_⟩
    rw [setLevel_of_lt hj, hlevel]
    exact hbelow j hkj hj

/-- A new node lies below the one that is last on the path a level above. -/
theorem encloses_iff :
    Encloses (setLevel level g.nodes.size depth) p g.nodes.size ↔
      0 < depth ∧ g.path[depth - 1]? = some p := by
  rw [h.path]
  constructor
  · rintro ⟨hp, hlevel, hbelow⟩
    rw [setLevel_self, setLevel_of_lt hp] at hlevel
    refine ⟨by omega, hp, by omega, fun j hpj hj => ?_⟩
    have hj' := hbelow j hpj hj
    rw [setLevel_of_lt hj, setLevel_of_lt hp] at hj'
    omega
  · rintro ⟨hpos, hp, hlevel, hbelow⟩
    refine ⟨hp, by rw [setLevel_self, setLevel_of_lt hp]; omega, fun j hpj hj => ?_⟩
    rw [setLevel_of_lt hj, setLevel_of_lt hp, hlevel]
    exact hbelow j hpj hj

/-- The last node is the end of the path. -/
theorem path_last (hn : k + 1 = g.nodes.size) : g.path[level k]? = some k := by
  rw [h.path]
  exact ⟨by omega, rfl, fun j hkj hj => by omega⟩

/-- A node that opens a level is the first child of the node before it. -/
theorem opens_iff (hdepth : depth ≤ g.path.size) :
    k + 1 = g.nodes.size ∧ depth = level k + 1 ↔
      g.path[depth]? = none ∧ 0 < depth ∧ g.path[depth - 1]? = some k := by
  constructor
  · rintro ⟨hn, rfl⟩
    have hlast := h.path_last hn
    refine ⟨?_, by omega, hlast⟩
    cases hopen : g.path[level k + 1]? with
    | none => rfl
    | some j =>
      obtain ⟨hj, hlevel, hbelow⟩ := h.path.mp hopen
      rcases Nat.lt_or_eq_of_le (Nat.le_of_lt_succ (hn ▸ hj)) with hjk | rfl
      · have := hbelow k hjk (by omega)
        omega
      · omega
  · rintro ⟨hnone, hpos, hparent⟩
    have hsize : g.path.size ≤ depth := by simpa using hnone
    obtain ⟨hk, hlevel, hbelow⟩ := h.path.mp hparent
    refine ⟨?_, by omega⟩
    rcases Nat.lt_or_eq_of_le (Nat.succ_le_of_lt hk) with hlt | heq
    · -- The last node would lie deeper than the path goes.
      have hlast := h.path_last (k := g.nodes.size - 1) (by omega)
      obtain ⟨hshort, -⟩ := Array.getElem?_eq_some_iff.mp hlast
      have := hbelow (g.nodes.size - 1) (by omega) (by omega)
      omega
    · exact heq

end Growth.Levelled

/-! ## Links -/

/-- What linking does to a node. -/
def relink (index : Nat) (parent older : Option Nat) (k : Nat) (node : Node) : Node :=
  match parent, older with
  | some _, some older => if older = k then { node with nextSibling := some index } else node
  | some parent, none => if parent = k then { node with firstChild := some index } else node
  | none, _ => node

theorem getElem?_link (nodes : Array Node) (index : Nat) (parent older : Option Nat) (k : Nat) :
    (link nodes index parent older)[k]? = nodes[k]?.map (relink index parent older k) := by
  unfold link relink
  split
  · rw [Array.getElem?_modify]
    split <;> simp [*]
  · rw [Array.getElem?_modify]
    split <;> simp [*]
  · simp

theorem size_link (nodes : Array Node) (index : Nat) (parent older : Option Nat) :
    (link nodes index parent older).size = nodes.size := by
  unfold link
  split <;> simp

theorem parent_relink (index : Nat) (parent older : Option Nat) (k : Nat) (node : Node) :
    (relink index parent older k node).parent = node.parent := by
  unfold relink
  split
  · split <;> rfl
  · split <;> rfl
  · rfl

theorem firstChild_relink (index : Nat) (parent older : Option Nat) (k : Nat) (node : Node) :
    (relink index parent older k node).firstChild =
      if parent = some k ∧ older = none then some index else node.firstChild := by
  unfold relink
  split
  · split <;> simp
  · split <;> simp_all
  · simp

theorem nextSibling_relink (index : Nat) (parent older : Option Nat) (k : Nat) (node : Node) :
    (relink index parent older k node).nextSibling =
      if parent.isSome ∧ older = some k then some index else node.nextSibling := by
  unfold relink
  split
  · split <;> simp_all
  · split <;> simp
  · simp

/-- The level of the entry that is added next. -/
def Growth.levelOf (g : Growth) (e : Entry) : Nat := g.path.size - (1 - e.depthDelta).toNat

theorem Growth.levelOf_le (g : Growth) (e : Entry) : g.levelOf e ≤ g.path.size :=
  Nat.sub_le _ _

/-- The node below which the entry that is added next lies. -/
def Growth.parentOf (g : Growth) (e : Entry) : Option Nat :=
  if g.levelOf e = 0 then none else g.path[g.levelOf e - 1]?

theorem Growth.parentOf_eq_some {g : Growth} {e : Entry} :
    g.parentOf e = some p ↔ 0 < g.levelOf e ∧ g.path[g.levelOf e - 1]? = some p := by
  unfold parentOf
  split <;> simp_all
  omega

theorem Growth.isSome_parentOf {g : Growth} {e : Entry} :
    (g.parentOf e).isSome ↔ 0 < g.levelOf e := by
  have hle := g.levelOf_le e
  unfold parentOf
  split
  · simp_all
  · simp
    omega

theorem Growth.add_eq_some {g g' : Growth} {e : Entry} (h : g.add e = some g') :
    g' = ⟨(link g.nodes g.nodes.size (g.parentOf e) g.path[g.levelOf e]?).push
        ⟨e.offset, e.tag, e.attributes, g.parentOf e, none, none⟩,
      (g.path.shrink (g.levelOf e)).push g.nodes.size⟩ := by
  unfold Growth.add at h
  dsimp only at h
  split at h
  · cases h
  · cases h
    rfl

theorem getElem?_shrink {α : Type} (xs : Array α) {n i : Nat} (hn : n ≤ xs.size) :
    (xs.shrink n)[i]? = if i < n then xs[i]? else none := by
  rw [Array.shrink_eq_take]
  grind

theorem Growth.size_add {g g' : Growth} {e : Entry} (h : g.add e = some g') :
    g'.nodes.size = g.nodes.size + 1 := by
  rw [add_eq_some h, Array.size_push, size_link]

/-- A node of the grown tree is the new one, or a node of the tree before that is linked anew. -/
theorem Growth.getElem?_add {g g' : Growth} {e : Entry} {node : Node} (h : g.add e = some g')
    (hget : g'.nodes[k]? = some node) :
    (k = g.nodes.size ∧ node = ⟨e.offset, e.tag, e.attributes, g.parentOf e, none, none⟩) ∨
    k < g.nodes.size ∧ ∃ old, g.nodes[k]? = some old ∧
      node = relink g.nodes.size (g.parentOf e) g.path[g.levelOf e]? k old := by
  rw [add_eq_some h, Array.getElem?_push, size_link, getElem?_link] at hget
  split at hget
  · rename_i hk
    cases hget
    exact .inl ⟨hk, rfl⟩
  · obtain ⟨old, hold, rfl⟩ := Option.map_eq_some_iff.mp hget
    exact .inr ⟨(Array.getElem?_eq_some_iff.mp hold).1, old, hold, rfl⟩

/-- The path of the grown tree goes on to the level of the new node and ends with it. -/
theorem Growth.getElem?_path_add {g g' : Growth} {e : Entry} (h : g.add e = some g') :
    g'.path[depth]? =
      if depth < g.levelOf e then g.path[depth]?
      else if depth = g.levelOf e then some g.nodes.size else none := by
  have hle := g.levelOf_le e
  rw [add_eq_some h, Array.getElem?_push, Array.size_shrink, getElem?_shrink _ hle]
  grind

namespace Growth.Levelled

variable {g g' : Growth} {e : Entry} (h : g.Levelled level)

include h

theorem path_add (hadd : g.add e = some g') {k : Nat} :
    g'.path[depth]? = some k ↔
      k < g'.nodes.size ∧ setLevel level g.nodes.size (g.levelOf e) k = depth ∧
        ∀ j, k < j → j < g'.nodes.size →
          depth < setLevel level g.nodes.size (g.levelOf e) j := by
  rw [Growth.getElem?_path_add hadd, Growth.size_add hadd]
  split
  · rename_i hlt
    rw [h.path, last_setLevel_of_lt hlt]
  · rename_i hge
    rw [last_setLevel_of_le (Nat.le_of_not_lt hge), Option.ite_none_right_eq_some,
      Option.some.injEq, eq_comm (a := k), and_comm]

variable {node : Node} (hadd : g.add e = some g') (hget : g'.nodes[k]? = some node)

include hadd hget

theorem parent_add :
    node.parent = some p ↔ Encloses (setLevel level g.nodes.size (g.levelOf e)) p k := by
  obtain ⟨rfl, rfl⟩ | ⟨hlt, old, hold, rfl⟩ := Growth.getElem?_add hadd hget
  · rw [h.encloses_iff]
    exact parentOf_eq_some
  · rw [parent_relink, h.nodes.parent hold, encloses_setLevel hlt]

theorem orphan_add (hparent : node.parent = none) :
    setLevel level g.nodes.size (g.levelOf e) k = 0 := by
  obtain ⟨rfl, rfl⟩ | ⟨hlt, old, hold, rfl⟩ := Growth.getElem?_add hadd hget
  · rw [setLevel_self]
    by_contra hpos
    have := isSome_parentOf.mpr (Nat.pos_of_ne_zero hpos)
    simp [show g.parentOf e = none from hparent] at this
  · rw [parent_relink] at hparent
    rw [setLevel_of_lt hlt]
    exact h.nodes.orphan hold hparent

theorem firstChild_add :
    node.firstChild = some c ↔ c = k + 1 ∧ c < g'.nodes.size ∧
      setLevel level g.nodes.size (g.levelOf e) c =
        setLevel level g.nodes.size (g.levelOf e) k + 1 := by
  rw [Growth.size_add hadd]
  obtain ⟨rfl, rfl⟩ | ⟨hlt, old, hold, rfl⟩ := Growth.getElem?_add hadd hget
  · exact ⟨nofun, fun ⟨_, _, _⟩ => by omega⟩
  have hopens := h.opens_iff (k := k) (g.levelOf_le e)
  rw [firstChild_relink, setLevel_of_lt hlt]
  simp only [parentOf_eq_some]
  split
  · -- The new node opens a level below this one.
    rename_i hnew
    obtain ⟨hn, hlevel⟩ := hopens.mpr ⟨hnew.2, hnew.1⟩
    rw [Option.some.injEq]
    constructor
    · rintro rfl
      exact ⟨hn.symm, by omega, setLevel_self.trans hlevel⟩
    · rintro ⟨rfl, -, -⟩
      exact hn.symm
  · rename_i hnew
    rw [h.nodes.firstChild hold]
    constructor
    · rintro ⟨rfl, hc, hlevel⟩
      exact ⟨rfl, by omega, (setLevel_of_lt hc).trans hlevel⟩
    · rintro ⟨rfl, hc, hlevel⟩
      have hne : k + 1 ≠ g.nodes.size := by
        intro hn
        rw [hn, setLevel_self] at hlevel
        have hlast := hopens.mp ⟨hn, hlevel⟩
        exact hnew ⟨hlast.2, hlast.1⟩
      have hc' : k + 1 < g.nodes.size := by omega
      exact ⟨rfl, hc', (setLevel_of_lt hc').symm.trans hlevel⟩

theorem nextSibling_add :
    node.nextSibling = some c ↔ c < g'.nodes.size ∧
      0 < setLevel level g.nodes.size (g.levelOf e) k ∧
      Next (setLevel level g.nodes.size (g.levelOf e)) k
        (setLevel level g.nodes.size (g.levelOf e) k) c := by
  rw [Growth.size_add hadd]
  obtain ⟨rfl, rfl⟩ | ⟨hlt, old, hold, rfl⟩ := Growth.getElem?_add hadd hget
  · exact ⟨nofun, fun ⟨_, _, hc, _⟩ => by omega⟩
  have hnext : Next (setLevel level g.nodes.size (g.levelOf e)) k (level k) g.nodes.size ↔
      g.path[g.levelOf e]? = some k := h.next_iff hlt
  rw [nextSibling_relink, setLevel_of_lt hlt]
  simp only [isSome_parentOf]
  split
  · -- This node is the last on the path at the level of the new one.
    rename_i hnew
    obtain ⟨hpos, hlast⟩ := hnew
    obtain ⟨-, hlevel, hbelow⟩ := h.path.mp hlast
    rw [Option.some.injEq]
    constructor
    · rintro rfl
      exact ⟨by omega, by omega, hnext.mpr hlast⟩
    · rintro ⟨hc, -, hkc, hon, -⟩
      by_contra hne
      have hc' : c < g.nodes.size := by omega
      have hdeeper := hbelow c hkc hc'
      rw [setLevel_of_lt hc'] at hon
      omega
  · rename_i hnew
    rw [h.nodes.nextSibling hold]
    constructor
    · rintro ⟨hc, hpos, hnext'⟩
      exact ⟨by omega, hpos, (next_setLevel hc).mpr hnext'⟩
    · rintro ⟨hc, hpos, hnext'⟩
      have hne : c ≠ g.nodes.size := by
        rintro rfl
        have hlast := hnext.mp hnext'
        obtain ⟨-, hlevel, -⟩ := h.path.mp hlast
        exact hnew ⟨by omega, hlast⟩
      have hc' : c < g.nodes.size := by omega
      exact ⟨hc', hpos, (next_setLevel hc').mp hnext'⟩

omit hadd hget

/-- Another entry keeps the levels and gets one of its own. -/
theorem add (hadd : g.add e = some g') :
    g'.Levelled (setLevel level g.nodes.size (g.levelOf e)) :=
  ⟨⟨h.parent_add hadd, h.orphan_add hadd, h.firstChild_add hadd, h.nextSibling_add hadd⟩,
    h.path_add hadd⟩

end Growth.Levelled

/-! ## Whole trees -/

/-- The levels of entries, given that of the one before them.  An entry lies at most one level
below the one before it, and never above the top. -/
def levelsFrom (before : Int) : List Entry → List Nat
  | [] => []
  | e :: rest =>
    let level := (before + min e.depthDelta 1).toNat
    level :: levelsFrom level rest

/-- The levels of all entries.  The first lies at the top, whatever it says. -/
def levels (entries : List Entry) : List Nat := levelsFrom (-1) entries

def levelAt (levels : List Nat) (k : Nat) : Nat := levels.getD k 0

theorem levelAt_levels_zero (entries : List Entry) : levelAt (levels entries) 0 = 0 := by
  cases entries with
  | nil => rfl
  | cons e rest =>
    change (-1 + min e.depthDelta 1).toNat = 0
    omega

/-- One level more stands for one node more. -/
theorem setLevel_levelAt (levels : List Nat) (depth : Nat) :
    setLevel (levelAt levels) levels.length depth = levelAt (levels ++ [depth]) := by
  funext k
  unfold setLevel levelAt
  simp only [List.getD_eq_getElem?_getD, List.getElem?_append, List.getElem?_singleton]
  grind

/-- The path is as long as the last node lies deep. -/
theorem Growth.levelOf_eq (g : Growth) (e : Entry) :
    g.levelOf e = ((g.path.size : Int) - 1 + min e.depthDelta 1).toNat := by
  unfold levelOf
  omega

theorem Growth.size_path_add {g g' : Growth} {e : Entry} (h : g.add e = some g') :
    g'.path.size = g.levelOf e + 1 := by
  have := g.levelOf_le e
  rw [add_eq_some h, Array.size_push, Array.size_shrink]
  omega

theorem levelled_empty (level : Nat → Nat) : Growth.Levelled level ⟨#[], #[]⟩ where
  nodes := ⟨nofun, nofun, nofun, nofun⟩
  path := by simp

theorem levelled_foldlM {entries : List Entry} {g g' : Growth} {before : List Nat}
    (hg : g.Levelled (levelAt before)) (hsize : g.nodes.size = before.length)
    (h : entries.foldlM Growth.add g = some g') :
    g'.Levelled (levelAt (before ++ levelsFrom (g.path.size - 1) entries)) := by
  induction entries generalizing g before with
  | nil =>
    cases h
    rwa [levelsFrom, List.append_nil]
  | cons e rest ih =>
    rw [List.foldlM_cons] at h
    obtain ⟨g₁, hadd, h⟩ := Option.bind_eq_some_iff.mp h
    have hg₁ := hg.add hadd
    rw [hsize, setLevel_levelAt] at hg₁
    have hrest := ih hg₁ (by simp [Growth.size_add hadd, hsize]) h
    have hpath : (g₁.path.size : Int) - 1 = g.levelOf e := by
      rw [Growth.size_path_add hadd]
      omega
    rw [List.append_assoc, List.singleton_append, hpath, Growth.levelOf_eq] at hrest
    exact hrest

/-- The levels of the entries tell the links between the nodes of their tree. -/
theorem levelled_ofEntries? {entries : List Entry} {t : DieTree}
    (h : ofEntries? entries = some t) : Levelled (levelAt (levels entries)) t.nodes := by
  obtain ⟨g, hg, rfl⟩ := Option.map_eq_some_iff.mp h
  have hempty : Growth.Levelled (levelAt []) ⟨#[], #[]⟩ := levelled_empty _
  exact (levelled_foldlM hempty rfl hg).nodes

end DebugSymbols.DieTree
