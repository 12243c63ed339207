import DebugSymbols.Dwarf.Entry
import DebugSymbols.Search

/-!
The tree that the entries of a unit form.  Its nodes are numbered in the order of the entries,
so a parent comes before its children.  Entries at the top have no parent and are no siblings of
each other; the first of them is the root.
-/

namespace DebugSymbols

structure DieTree.Node where
  /-- Where the entry starts in its unit. -/
  offset : UInt64
  tag : Tag
  attributes : List Attribute
  parent : Option Nat
  firstChild : Option Nat
  nextSibling : Option Nat

structure DieTree where
  nodes : Array DieTree.Node

namespace DieTree

/-! ## Construction -/

def maxDepth : Nat := 64 * 1024

/-- A tree under construction. -/
structure Growth where
  nodes : Array Node
  /-- The last node and its ancestors, from the top. -/
  path : Array Nat

/-- Links a node to its older sibling, or to its parent if it is the first child. -/
def link (nodes : Array Node) (index : Nat) : Option Nat → Option Nat → Array Node
  | some _, some older => nodes.modify older fun n => { n with nextSibling := some index }
  | some parent, none => nodes.modify parent fun n => { n with firstChild := some index }
  | none, _ => nodes

/-- Adds the next entry.  As many levels as it says are closed, but no more than are open. -/
def Growth.add (g : Growth) (e : Entry) : Option Growth :=
  let level := g.path.size - (1 - e.depthDelta).toNat
  if maxDepth ≤ level then none
  else
    let index := g.nodes.size
    let parent := if level = 0 then none else g.path[level - 1]?
    let nodes := link g.nodes index parent g.path[level]?
    some {
      nodes := nodes.push ⟨e.offset, e.tag, e.attributes, parent, none, none⟩
      path := (g.path.shrink level).push index }

/-- The tree of the entries, unless it is too deep. -/
def ofEntries? (entries : List Entry) : Option DieTree :=
  (entries.foldlM Growth.add ⟨#[], #[]⟩).map fun g => ⟨g.nodes⟩

/-! ## Look-up and traversal -/

def node? (t : DieTree) (index : Nat) : Option Node := t.nodes[index]?

/-- The node that starts at the offset. -/
def find? (t : DieTree) (offset : UInt64) : Option Nat := do
  let index ← lastAtMost? (·.offset) t.nodes offset
  let node ← t.node? index
  if node.offset = offset then some index else none

/-- A node and its younger siblings. -/
def siblingsFrom (t : DieTree) : Nat → Option Nat → List Nat
  | 0, _ | _, none => []
  | fuel + 1, some index => index :: t.siblingsFrom fuel ((t.node? index).bind (·.nextSibling))

def children (t : DieTree) (index : Nat) : List Nat :=
  t.siblingsFrom t.nodes.size ((t.node? index).bind (·.firstChild))

/-- Visits what lies on a stack: behind a node its first child, then its next sibling. -/
def visit (t : DieTree) : Nat → List Nat → List Nat
  | 0, _ | _, [] => []
  | fuel + 1, index :: stack =>
    match t.node? index with
    | some node =>
      index :: t.visit fuel (node.firstChild.toList ++ node.nextSibling.toList ++ stack)
    | none => t.visit fuel stack

/-- The root and all nodes below it, a parent before its children. -/
def preorder (t : DieTree) : List Nat := t.visit t.nodes.size [0]

end DieTree

end DebugSymbols
