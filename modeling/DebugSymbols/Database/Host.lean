import DebugSymbols.Database.Program
import DebugSymbols.Database.Types

/-!
The host of an import: a database behind calls that it may refuse.  A refused call answers
nothing and has no effect.  What the database looks up for itself is never refused.
-/

namespace DebugSymbols

/-! ## Calls and replies -/

inductive Call where
  | addFunction (range : AddressRange)
  | typeCount
  | namedType (name : String)
  | numberedType (ordinal : Ordinal)
  | addNamedType (name : String) (shape : TypeShape)
  | typeSize (ordinal : Ordinal)
  | findEnum (name : String)
  | enumWithConstant (constant : String)
  | addEnum (name : Option String) (width : UInt8)
  | addEnumConstant (id : EnumId) (name : String) (value : UInt64)
  | enumDef (id : EnumId)
  | findStruct (name : String)
  | addStruct (name : Option String) (isUnion : Bool)
  | structDef (id : StructId)
  | addStructMember (id : StructId) (member : Member)
  | functionAt (address : UInt64)
  | applyType (address : UInt64) (type : TypeLink) (size : UInt64)
  | appliedType (address : UInt64)
  | setName (address : UInt64) (name : String) (isLocal : Bool)
  | nameAt (address : UInt64)
  | stackVariable (function : UInt64) (name : String)
  | addStackVariable (function : UInt64) (v : StackVariable)
  | addRegisterVariable (function : UInt64) (v : RegisterVariable)
  | storeBlob (key : String) (content : List UInt8)
  | loadBlob (key : String)
deriving DecidableEq

/-- The answer to a call. -/
inductive Reply where
  | nothing
  | flag (value : Bool)
  | count (n : Nat)
  | ordinal (ordinal : Ordinal)
  | type (type : NamedType)
  | size (size : UInt64)
  | enumId (id : EnumId)
  | enumDef (definition : EnumDef)
  | structId (id : StructId)
  | structDef (definition : StructDef)
  | function (range : AddressRange)
  | applied (type : TypeLink) (size : UInt64)
  | name (name : String) (isLocal : Bool)
  | stackVariable (v : StackVariable)
  | blob (content : List UInt8)
deriving DecidableEq

structure Host where
  database : Database
  refuses : Call → Bool

namespace Host

/-- A host that refuses no call of its own. -/
def ofDatabase (db : Database) : Host := ⟨db, fun _ => false⟩

/-! ## Queries -/

def namedType? (h : Host) (name : String) : Option Ordinal := h.database.namedType? name

def numberedType? (h : Host) (ordinal : Ordinal) : Option NamedType :=
  if h.refuses (.numberedType ordinal) then none else h.database.numberedType? ordinal

def typeSize? (h : Host) (ordinal : Ordinal) : Option UInt64 :=
  if h.refuses (.typeSize ordinal) then none else h.database.typeSize? ordinal

def findEnum? (h : Host) (name : String) : Option EnumId := h.database.findEnum? name

def enumWithConstant? (h : Host) (constant : String) : Option EnumId :=
  h.database.enumWithConstant? constant

def enumDef? (h : Host) (id : EnumId) : Option EnumDef :=
  if h.refuses (.enumDef id) then none else h.database.enumDef? id

def findStruct? (h : Host) (name : String) : Option StructId := h.database.findStruct? name

def structDef? (h : Host) (id : StructId) : Option StructDef :=
  if h.refuses (.structDef id) then none else h.database.structDef? id

def functionAt? (h : Host) (address : UInt64) : Option AddressRange :=
  h.database.functionAt? address

def stackVariable? (h : Host) (function : UInt64) (name : String) : Option StackVariable :=
  h.database.stackVariable? function name

def loadBlob? (h : Host) (key : String) : Option (List UInt8) := h.database.loadBlob? key

/-! ## Changes -/

def addNamedType? (h : Host) (name : String) (shape : TypeShape) : Option (Ordinal × Host) :=
  if h.refuses (.addNamedType name shape) then none
  else (h.database.addNamedType? name shape).map fun (o, db) => (o, { h with database := db })

def addEnum? (h : Host) (name : Option String) (width : UInt8) : Option (EnumId × Host) :=
  if h.refuses (.addEnum name width) then none
  else (h.database.addEnum? name width).map fun (id, db) => (id, { h with database := db })

def addEnumConstant? (h : Host) (id : EnumId) (name : String) (value : UInt64) : Option Host :=
  (h.database.addEnumConstant? id name value).map fun db => { h with database := db }

def addStruct? (h : Host) (name : Option String) (isUnion : Bool) : Option (StructId × Host) :=
  if h.refuses (.addStruct name isUnion) then none
  else (h.database.addStruct? name isUnion).map fun (id, db) => (id, { h with database := db })

def addStructMember? (h : Host) (id : StructId) (m : Member) : Option Host :=
  if h.refuses (.addStructMember id m) then none
  else (h.database.addStructMember? id m).map fun db => { h with database := db }

def applyType (h : Host) (address : UInt64) (type : TypeLink) (size : UInt64) : Host :=
  { h with database := h.database.applyType address type size }

def setName? (h : Host) (address : UInt64) (name : String) (isLocal : Bool) : Option Host :=
  if h.refuses (.setName address name isLocal) then none
  else some { h with database := h.database.setName address name isLocal }

def addStackVariable? (h : Host) (function : UInt64) (v : StackVariable) : Option Host :=
  if h.refuses (.addStackVariable function v) then none
  else (h.database.addStackVariable? function v).map fun db => { h with database := db }

def addRegisterVariable? (h : Host) (function : UInt64) (v : RegisterVariable) : Option Host :=
  if h.refuses (.addRegisterVariable function v) then none
  else some { h with database := h.database.addRegisterVariable function v }

def storeBlob (h : Host) (key : String) (content : List UInt8) : Host :=
  { h with database := h.database.storeBlob key content }

/-! ## Carrying out a call -/

/-- The reply to a query that may have no answer. -/
def reply (f : α → Reply) : Option α → Reply
  | some a => f a
  | none => .nothing

/-- A change that hands out something new, or is refused. -/
def hand (h : Host) (f : α → Reply) : Option (α × Host) → Reply × Host
  | some (a, h) => (f a, h)
  | none => (.nothing, h)

/-- A change that succeeds or is refused. -/
def attempt (h : Host) : Option Host → Reply × Host
  | some h => (.flag true, h)
  | none => (.flag false, h)

def perform (h : Host) : Call → Reply × Host
  | .addFunction range => (.nothing, { h with database := h.database.addFunction range })
  | .typeCount => (.count h.database.types.size, h)
  | .namedType name => (reply .ordinal (h.namedType? name), h)
  | .numberedType ordinal => (reply .type (h.numberedType? ordinal), h)
  | .addNamedType name shape => h.hand .ordinal (h.addNamedType? name shape)
  | .typeSize ordinal => (reply .size (h.typeSize? ordinal), h)
  | .findEnum name => (reply .enumId (h.findEnum? name), h)
  | .enumWithConstant constant => (reply .enumId (h.enumWithConstant? constant), h)
  | .addEnum name width => h.hand .enumId (h.addEnum? name width)
  | .addEnumConstant id name value => h.attempt (h.addEnumConstant? id name value)
  | .enumDef id => (reply .enumDef (h.enumDef? id), h)
  | .findStruct name => (reply .structId (h.findStruct? name), h)
  | .addStruct name isUnion => h.hand .structId (h.addStruct? name isUnion)
  | .structDef id => (reply .structDef (h.structDef? id), h)
  | .addStructMember id member => h.attempt (h.addStructMember? id member)
  | .functionAt address => (reply .function (h.functionAt? address), h)
  | .applyType address type size => (.flag true, h.applyType address type size)
  | .appliedType address =>
    (reply (fun (type, size) => .applied type size) (h.database.applied.get? address), h)
  | .setName address name isLocal => h.attempt (h.setName? address name isLocal)
  | .nameAt address =>
    (reply (fun (name, isLocal) => .name name isLocal) (h.database.names.get? address), h)
  | .stackVariable function name => (reply .stackVariable (h.stackVariable? function name), h)
  | .addStackVariable function v => h.attempt (h.addStackVariable? function v)
  | .addRegisterVariable function v => h.attempt (h.addRegisterVariable? function v)
  | .storeBlob key content => (.nothing, h.storeBlob key content)
  | .loadBlob key => (reply .blob (h.loadBlob? key), h)

end Host

end DebugSymbols
