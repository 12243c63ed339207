import DebugSymbols.Dwarf.Attribute
import DebugSymbols.Dwarf.Tag

/-!
Abbreviations: what entries of one shape have in common.  An entry names its abbreviation by a
code, which no two abbreviations of a table share.
-/

namespace DebugSymbols

structure Abbreviation where
  code : UInt64
  tag : Tag
  hasChildren : Bool
  specs : List AttributeSpec
deriving DecidableEq, Repr

namespace Abbreviation

open Read

/-- An attribute, unless the list of attributes ends here with two zeros. -/
def readSpec : Read (Option AttributeSpec) := do
  let name ← uleb16
  let form ← uleb16
  if form = 0 then
    if name = 0 then return none else failure
  else if name = 0 then failure
  else if form = 0x21 then return some ⟨⟨name⟩, form, some (← sleb)⟩
  else return some ⟨⟨name⟩, form, none⟩

/-- An abbreviation, unless the table ends here, with code zero or with the section. -/
def read? : Read (Option Abbreviation) := do
  if ← atEnd then return none
  let code ← uleb
  if code = 0 then return none
  let tag ← uleb16
  if tag = 0 then failure
  let hasChildren ← match ← byte with
    | 0 => pure false
    | 1 => pure true
    | _ => failure
  return some ⟨code, Tag.ofCode tag, hasChildren, ← untilNone readSpec⟩

/-- A table, in which no code occurs twice. -/
def readTable : Read (List Abbreviation) := do
  let table ← untilNone read?
  if (table.map (·.code)).Nodup then return table else failure

def find? (table : List Abbreviation) (code : UInt64) : Option Abbreviation :=
  table.find? (·.code = code)

end Abbreviation

end DebugSymbols
