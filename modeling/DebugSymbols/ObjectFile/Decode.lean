import DebugSymbols.ObjectFile.Elf.File
import DebugSymbols.ObjectFile.MachO.File

/-!
Object files of any format, which their first bytes tell.
-/

namespace DebugSymbols.ObjectFile

/-- Whatever is shorter is no object file. -/
def leastSize : Nat := 16

/-- Reads an object file. -/
def decode (file : ByteArray) : Except Error ObjectFile :=
  let read := if file.size < leastSize then none else Elf.read? file <|> MachO.read? file
  read.elim (.error .malformed) .ok

/-- The content of the section with a name, if there is one. -/
def sectionContent? (f : ObjectFile) (name : String) : Except Error (Option ByteArray) :=
  (f.section? name).mapM load

/-- The content of the section with a name, with all relocations applied. -/
def relocatedContent? (f : ObjectFile) (name : String) : Except Error (Option ByteArray) :=
  (f.section? name).mapM f.loadRelocated

end DebugSymbols.ObjectFile
