import DebugSymbols.Dwarf.Error
import DebugSymbols.Dwarf.Sections
import DebugSymbols.ObjectFile.Decode

/-!
The sections with debugging information in an object file.
-/

namespace DebugSymbols.Sections

/-- The sections that are loaded, in this order.  Some are not needed, but have to be in order. -/
def names : List String :=
  [".debug_abbrev", ".debug_addr", ".debug_aranges", ".debug_info", ".debug_line",
    ".debug_line_str", ".debug_macinfo", ".debug_macro", ".debug_str", ".debug_str_offsets",
    ".debug_types", ".debug_loc", ".debug_loclists", ".debug_ranges", ".debug_rnglists"]

/-- Loads the sections of a file, which has to have the lowest byte of numbers first. -/
def ofObjectFile (f : ObjectFile) : Except DebugInfo.Error Sections := do
  if f.byteOrder = .big then throw .bigEndian
  let contents ← names.mapM fun name => do
    let content ← (f.relocatedContent? name).mapError .objectFile
    return (name, content.getD .empty)
  return .ofSource fun name => (contents.lookup name).getD .empty

end DebugSymbols.Sections
