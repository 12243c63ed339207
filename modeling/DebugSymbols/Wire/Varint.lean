/-!
Base-128 numbers of up to 64 bits: seven bits to a byte, lowest first, every byte but the last
with its high bit set.
Main statements: `decode_encode` reads back what was written whatever follows it, and
`length_lt_of_decode` says that reading a number uses up a byte at least.
-/

namespace DebugSymbols.Wire.Varint

/-- A number below `2 ^ 64` takes at most this many bytes. -/
def maxLength : Nat := 10

def encode (n : Nat) : List UInt8 :=
  if n < 128 then [n.toUInt8] else (n % 128 + 128).toUInt8 :: encode (n / 128)

/-- Reads a number of at most the given length, with the bytes after it. -/
def decodeWithin : Nat → List UInt8 → Option (Nat × List UInt8)
  | 0, _ => none
  | _ + 1, [] => none
  | k + 1, b :: rest =>
    if b.toNat < 128 then some (b.toNat, rest)
    else (decodeWithin k rest).map fun r => (b.toNat - 128 + 128 * r.1, r.2)

/-- Refuses a number that is cut short, too long or beyond 64 bits. -/
def decode (bytes : List UInt8) : Option (Nat × List UInt8) :=
  (decodeWithin maxLength bytes).filter fun r => r.1 < UInt64.size

private theorem toNat_toUInt8 {n : Nat} (h : n < 256) : n.toUInt8.toNat = n := by
  simp [Nat.mod_eq_of_lt h]

theorem decodeWithin_encode {k n : Nat} (h : n < Nat.pow 128 (k + 1)) (rest : List UInt8) :
    decodeWithin (k + 1) (encode n ++ rest) = some (n, rest) := by
  induction k generalizing n with
  | zero =>
    have hn : n < 128 := h
    rw [encode, if_pos hn]
    simp [decodeWithin, toNat_toUInt8 (by omega : n < 256), hn]
  | succ k ih =>
    rw [encode]
    split
    · rename_i hn
      simp [decodeWithin, toNat_toUInt8 (by omega : n < 256), hn]
    · have hb := toNat_toUInt8 (by omega : n % 128 + 128 < 256)
      have hq : n / 128 < Nat.pow 128 (k + 1) := (Nat.div_lt_iff_lt_mul (by decide)).2 h
      rw [List.cons_append, decodeWithin, hb, if_neg (by omega), ih hq]
      simp
      omega

theorem decode_encode {n : Nat} (h : n < UInt64.size) (rest : List UInt8) :
    decode (encode n ++ rest) = some (n, rest) := by
  have hk : n < Nat.pow 128 (9 + 1) := Nat.lt_trans h (by decide)
  rw [decode, maxLength, decodeWithin_encode hk, Option.filter_some, if_pos (decide_eq_true h)]

theorem length_lt_of_decodeWithin {k n : Nat} {bytes rest : List UInt8}
    (h : decodeWithin k bytes = some (n, rest)) : rest.length < bytes.length := by
  fun_induction decodeWithin k bytes generalizing n rest with
  | case1 => simp at h
  | case2 => simp at h
  | case3 k b tail hb =>
    simp only [Option.some.injEq, Prod.mk.injEq] at h
    simp [← h.2]
  | case4 k b tail hb ih =>
    obtain ⟨r, hr, he⟩ := Option.map_eq_some_iff.1 h
    have := ih hr
    simp only [Prod.mk.injEq] at he
    simp only [List.length_cons, ← he.2]
    omega

theorem length_lt_of_decode {n : Nat} {bytes rest : List UInt8}
    (h : decode bytes = some (n, rest)) : rest.length < bytes.length :=
  length_lt_of_decodeWithin (Option.filter_eq_some_iff.1 h).1

end DebugSymbols.Wire.Varint
