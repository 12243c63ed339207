import DebugSymbols.Database.Handle
import DebugSymbols.SortedMap

/-!
What became of every entry of the debugging information that was looked at, by its offset.
An entry of the cache is only ever improved: from nothing to useless, and from either to a
type or to a placed variable.
-/

namespace DebugSymbols

/-- What a visited entry turned out to be. -/
inductive Classification where
  /-- Nothing was registered for it. -/
  | useless
  /-- It produced a type; a pending structure lacks members that are not resolved yet. -/
  | type (ordinal : Ordinal) (pending : Bool)
  /-- It was placed as a variable, parameter or label. -/
  | placed
deriving DecidableEq, Repr

structure OffsetCache where
  classes : SortedMap UInt64 Classification
  /-- The offset that each ordinal, by its number, came from first. -/
  origins : SortedMap Nat UInt64

namespace OffsetCache

def empty : OffsetCache := ⟨.empty, .empty⟩

instance : Inhabited OffsetCache := ⟨empty⟩

theorem ext {c d : OffsetCache} (hc : ∀ offset, c.classes.get? offset = d.classes.get? offset)
    (ho : ∀ n, c.origins.get? n = d.origins.get? n) : c = d := by
  cases c
  cases d
  congr
  · exact SortedMap.ext hc
  · exact SortedMap.ext ho

/-! ## Reading -/

def get? (c : OffsetCache) (offset : UInt64) : Option Classification := c.classes.get? offset

def has (c : OffsetCache) (offset : UInt64) : Bool := (c.get? offset).isSome

def size (c : OffsetCache) : Nat := c.classes.size

/-- The ordinal and whether it is pending, if the entry produced a type. -/
def type? (c : OffsetCache) (offset : UInt64) : Option (Ordinal × Bool) :=
  match c.get? offset with
  | some (.type ordinal pending) => some (ordinal, pending)
  | _ => none

def isPending (c : OffsetCache) (offset : UInt64) : Bool :=
  match c.type? offset with
  | some (_, pending) => pending
  | none => false

/-- The offset that the ordinal came from first. -/
def typeOffset? (c : OffsetCache) (ordinal : Ordinal) : Option UInt64 :=
  c.origins.get? ordinal.val

/-- The offsets of all pending types, in ascending order. -/
def pending (c : OffsetCache) : List UInt64 :=
  c.classes.toList.filterMap fun (offset, cl) =>
    match cl with
    | .type _ true => some offset
    | _ => none

/-! ## Writing -/

/-- Whether an improvement of the entry is accepted: it is missing or useless. -/
def isOpen (c : OffsetCache) (offset : UInt64) : Bool :=
  match c.get? offset with
  | none | some .useless => true
  | _ => false

/-- Changes nothing where there is an entry. -/
def markUseless (c : OffsetCache) (offset : UInt64) : OffsetCache :=
  if c.has offset then c else { c with classes := c.classes.insert offset .useless }

/-- Changes nothing unless the entry is open. -/
def markType (c : OffsetCache) (offset : UInt64) (ordinal : Ordinal) (pending : Bool) :
    OffsetCache :=
  if c.isOpen offset then
    { classes := c.classes.insert offset (.type ordinal pending)
      origins :=
        if c.origins.contains ordinal.val then c.origins
        else c.origins.insert ordinal.val offset }
  else c

/-- Changes nothing unless the entry is open. -/
def markPlaced (c : OffsetCache) (offset : UInt64) : OffsetCache :=
  if c.isOpen offset then { c with classes := c.classes.insert offset .placed } else c

def clearPending (c : OffsetCache) (offset : UInt64) : OffsetCache :=
  match c.type? offset with
  | some (ordinal, _) => { c with classes := c.classes.insert offset (.type ordinal false) }
  | none => c

theorem get?_markUseless (c : OffsetCache) (offset j : UInt64) :
    (c.markUseless offset).get? j =
      if j = offset then some ((c.get? offset).getD .useless) else c.get? j := by
  unfold markUseless has
  by_cases hj : j = offset
  · subst hj
    cases h : c.get? j <;> simp_all [get?]
  · cases h : c.get? offset <;> simp_all [get?, SortedMap.get?_insert]

theorem get?_markType (c : OffsetCache) (offset j : UInt64) (o : Ordinal) (p : Bool) :
    (c.markType offset o p).get? j =
      if j = offset ∧ c.isOpen offset = true then some (.type o p) else c.get? j := by
  unfold markType
  split <;> simp_all [get?, SortedMap.get?_insert]

theorem get?_markPlaced (c : OffsetCache) (offset j : UInt64) :
    (c.markPlaced offset).get? j =
      if j = offset ∧ c.isOpen offset = true then some .placed else c.get? j := by
  unfold markPlaced
  split <;> simp_all [get?, SortedMap.get?_insert]

end OffsetCache

end DebugSymbols
