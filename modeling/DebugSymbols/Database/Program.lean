import DebugSymbols.Database.Basic

/-!
What a database knows about the program: its functions and their variables, the types and
names of its addresses, and blobs kept from one run to the next.
-/

namespace DebugSymbols.Database

/-- Replaces a function with the same start. -/
def addFunction (db : Database) (range : AddressRange) : Database :=
  { db with functions := db.functions.insert range.start range.stop }

/-- Only the function with the nearest start below the address is looked at. -/
def functionAt? (db : Database) (address : UInt64) : Option AddressRange :=
  match db.functions.last? address with
  | some (start, stop) => if address < stop then some ⟨start, stop⟩ else none
  | none => none

def applyType (db : Database) (address : UInt64) (type : TypeLink) (size : UInt64) : Database :=
  { db with applied := db.applied.insert address (type, size) }

def setName (db : Database) (address : UInt64) (name : String) (isLocal : Bool) : Database :=
  { db with names := db.names.insert address (name, isLocal) }

def stackVariablesOf (db : Database) (function : UInt64) : List StackVariable :=
  (db.stackVariables.get? function).getD []

def registerVariablesOf (db : Database) (function : UInt64) : List RegisterVariable :=
  (db.registerVariables.get? function).getD []

def stackVariable? (db : Database) (function : UInt64) (name : String) : Option StackVariable :=
  (db.stackVariablesOf function).find? (·.name = name)

/-- Refused if the function has a stack variable of that name. -/
def addStackVariable? (db : Database) (function : UInt64) (v : StackVariable) :
    Option Database :=
  if (db.stackVariable? function v.name).isSome then none
  else
    some { db with
      stackVariables := db.stackVariables.insert function (db.stackVariablesOf function ++ [v]) }

def addRegisterVariable (db : Database) (function : UInt64) (v : RegisterVariable) : Database :=
  { db with
    registerVariables :=
      db.registerVariables.insert function (db.registerVariablesOf function ++ [v]) }

/-- The starts of all functions that have variables, in ascending order. -/
def variableFunctions (db : Database) : List UInt64 :=
  let starts := db.stackVariables.toList.map (·.1) ++ db.registerVariables.toList.map (·.1)
  let distinct : SortedMap UInt64 Unit := starts.foldl (fun m start => m.insert start ()) .empty
  distinct.toList.map (·.1)

def loadBlob? (db : Database) (key : String) : Option (List UInt8) := db.blobs.get? key

def storeBlob (db : Database) (key : String) (content : List UInt8) : Database :=
  { db with blobs := db.blobs.insert key content }

end DebugSymbols.Database
