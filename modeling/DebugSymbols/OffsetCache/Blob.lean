import DebugSymbols.OffsetCache.Basic
import DebugSymbols.Text.Hex
import DebugSymbols.Wire.Field

/-!
The persisted form of an offset cache: a message that holds a version, the classified offsets
in ascending order and, because the first offset of an ordinal need not be the lowest, the
origin of every ordinal.  The records need not agree with each other when a blob comes from
elsewhere, so restoring a cache checks them.
-/

namespace DebugSymbols

namespace CacheBlob

/-- One classified offset.  The kind is a signed number of 32 bits. -/
structure Entry where
  offset : UInt64
  kind : Int
  ordinal : Nat
  pending : Bool
deriving DecidableEq, Repr

/-- The offset that an ordinal came from first. -/
structure Origin where
  ordinal : Nat
  offset : UInt64
deriving DecidableEq, Repr

end CacheBlob

/-- The records of a persisted cache as they are written down. -/
structure CacheBlob where
  version : Nat
  entries : List CacheBlob.Entry
  origins : List CacheBlob.Origin
deriving DecidableEq, Repr

namespace CacheBlob

/-- The only version there is. -/
def currentVersion : Nat := 1

/-! ## Written form -/

def Entry.encode (e : Entry) : List UInt8 :=
  Wire.putNumber 1 e.offset.toNat ++ Wire.putNumber 2 e.kind.toNat ++
    Wire.putNumber 3 e.ordinal ++ Wire.putNumber 4 e.pending.toNat

def Origin.encode (o : Origin) : List UInt8 :=
  Wire.putNumber 1 o.ordinal ++ Wire.putNumber 2 o.offset.toNat

def encode (b : CacheBlob) : List UInt8 :=
  Wire.putNumber 1 b.version ++ b.entries.flatMap (fun e => Wire.putBytes 2 e.encode) ++
    b.origins.flatMap (fun o => Wire.putBytes 3 o.encode)

/-- How deep unknown groups may nest in a message; one level less in a nested message. -/
def maxLevels : Nat := 100

/-- Keeps the low 32 bits. -/
def low32 (n : Nat) : Nat := n % UInt32.size

def Entry.decode (bytes : List UInt8) : Option Entry := do
  let fs ← Wire.fields (maxLevels - 1) bytes
  let offset ← Wire.number 1 fs
  let kind ← Wire.number 2 fs
  let ordinal ← Wire.number 3 fs
  let pending ← Wire.number 4 fs
  return ⟨offset.toUInt64, Int.bmod kind UInt32.size, low32 ordinal, pending != 0⟩

def Origin.decode (bytes : List UInt8) : Option Origin := do
  let fs ← Wire.fields (maxLevels - 1) bytes
  let ordinal ← Wire.number 1 fs
  let offset ← Wire.number 2 fs
  return ⟨low32 ordinal, offset.toUInt64⟩

def decode (bytes : List UInt8) : Option CacheBlob := do
  let fs ← Wire.fields maxLevels bytes
  let version ← Wire.number 1 fs
  let entries ← (← Wire.contents 2 fs).mapM Entry.decode
  let origins ← (← Wire.contents 3 fs).mapM Origin.decode
  return ⟨low32 version, entries, origins⟩

end CacheBlob

namespace OffsetCache

/-- Why a persisted cache is rejected. -/
inductive Error where
  | malformed
  | badVersion (version : Nat)
  | badKind (offset : UInt64) (kind : Int)
  | badOrigin (ordinal : Ordinal) (offset : UInt64)
deriving DecidableEq, Repr

def Error.message : Error → String
  | malformed => "Offset cache blob is malformed"
  | badVersion version => "Offset cache blob has unsupported version " ++ toString version
  | badKind offset kind =>
    "Offset cache record for DIE " ++ hex offset.toNat ++ " has unknown kind " ++ toString kind
  | badOrigin ordinal offset =>
    "Offset cache names DIE " ++ hex offset.toNat ++ " as the origin of " ++ toString ordinal ++
      ", but it isn't"

/-! ## Writing -/

/-- The kind and the details that a class is recorded with. -/
def entryOf (offset : UInt64) : Classification → CacheBlob.Entry
  | .useless => ⟨offset, 0, 0, false⟩
  | .type ordinal pending => ⟨offset, 1, ordinal.val, pending⟩
  | .placed => ⟨offset, 2, 0, false⟩

def toBlob (c : OffsetCache) : CacheBlob where
  version := CacheBlob.currentVersion
  entries := c.classes.toList.map fun (offset, cl) => entryOf offset cl
  origins := c.origins.toList.map fun (ordinal, offset) => ⟨ordinal, offset⟩

def toBytes (c : OffsetCache) : List UInt8 := c.toBlob.encode

/-! ## Restoring -/

/-- Classifies an offset as recorded, subject to the rules for improving an entry. -/
def restoreEntry (c : OffsetCache) (e : CacheBlob.Entry) : Except Error OffsetCache :=
  match e.kind with
  | 0 => .ok (c.markUseless e.offset)
  | 1 => .ok (c.markType e.offset ⟨e.ordinal⟩ e.pending)
  | 2 => .ok (c.markPlaced e.offset)
  | kind => .error (.badKind e.offset kind)

/-- An origin has to be a type of that ordinal; it then replaces what the entries suggest. -/
def restoreOrigin (c : OffsetCache) (o : CacheBlob.Origin) : Except Error OffsetCache :=
  match c.type? o.offset with
  | some (ordinal, _) =>
    if ordinal.val = o.ordinal then .ok { c with origins := c.origins.insert o.ordinal o.offset }
    else .error (.badOrigin ⟨o.ordinal⟩ o.offset)
  | none => .error (.badOrigin ⟨o.ordinal⟩ o.offset)

def ofBlob (b : CacheBlob) : Except Error OffsetCache :=
  if b.version = CacheBlob.currentVersion then do
    let c ← b.entries.foldlM restoreEntry empty
    b.origins.foldlM restoreOrigin c
  else .error (.badVersion b.version)

def ofBytes (bytes : List UInt8) : Except Error OffsetCache :=
  match CacheBlob.decode bytes with
  | some b => ofBlob b
  | none => .error .malformed

end OffsetCache

end DebugSymbols
