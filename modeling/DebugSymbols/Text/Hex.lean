/-!
Numbers written in base sixteen.
-/

namespace DebugSymbols

/-- Lower case digits after `0x`, as offsets and addresses are written. -/
def hex (n : Nat) : String := "0x" ++ String.ofList (Nat.toDigits 16 n)

/-- Upper case digits alone. -/
def upperHex (n : Nat) : String := String.ofList ((Nat.toDigits 16 n).map Char.toUpper)

end DebugSymbols
