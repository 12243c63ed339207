/-!
Processor architectures and the registers that location descriptions number.
-/

namespace DebugSymbols

/-- An architecture whose register numbering is known. -/
inductive Machine where
  | x86
  | x86_64
deriving DecidableEq, Repr

namespace Machine

/-- Names of the general purpose registers and the program counter, in the numbering that
debug information uses. -/
def registers : Machine → List String
  | x86 => ["eax", "ecx", "edx", "ebx", "esp", "ebp", "esi", "edi", "eip"]
  | x86_64 =>
    ["rax", "rdx", "rcx", "rbx", "rsi", "rdi", "rbp", "rsp",
      "r8", "r9", "r10", "r11", "r12", "r13", "r14", "r15", "rip"]

def registerName (m : Machine) (number : UInt16) : Option String :=
  m.registers[number.toNat]?

def framePointer : Machine → UInt16
  | x86 => 5
  | x86_64 => 6

theorem registerName_framePointer :
    x86.registerName x86.framePointer = some "ebp" ∧
      x86_64.registerName x86_64.framePointer = some "rbp" := by
  decide

end Machine

end DebugSymbols
