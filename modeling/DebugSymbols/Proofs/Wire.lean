import DebugSymbols.Wire.Field
import Mathlib.Algebra.Group.Nat.Defs
import Mathlib.Tactic.Common

/-!
A message that was written is read back field by field.  `Reads bytes fs` says so of a part of
a message, whatever follows it, and parts put together are read together.
Main statement: `fields_eq_some` reads a whole message.
-/

namespace DebugSymbols.Wire

theorem Varint.length_encode_le {k n : Nat} (h : n < 128 ^ (k + 1)) :
    (Varint.encode n).length ≤ k + 1 := by
  induction k generalizing n with
  | zero =>
    have hn : n < 128 := h
    rw [Varint.encode, if_pos hn]
    simp
  | succ k ih =>
    rw [Varint.encode]
    split
    · simp
    · have hq : n / 128 < 128 ^ (k + 1) := (Nat.div_lt_iff_lt_mul (by decide)).2 h
      simpa using ih hq

theorem Varint.length_encode_le_ten {n : Nat} (h : n < UInt64.size) :
    (Varint.encode n).length ≤ 10 :=
  Varint.length_encode_le (k := 9) (Nat.lt_trans h (by decide))

theorem length_putNumber_le (tag : Nat) {n : Nat} (ht : tag < 16) (hn : n < UInt64.size) :
    (putNumber tag n).length ≤ 11 := by
  have hkey : (Varint.encode (8 * tag)).length ≤ 1 :=
    Varint.length_encode_le (k := 0) (by omega)
  have hnum := Varint.length_encode_le_ten hn
  unfold putNumber
  split
  · simp
  · simp only [List.length_append]
    omega

/-! ## Parts of a message -/

/-- What a number is read back as: a zero is left out. -/
def numberField (tag n : Nat) : List Field := if n = 0 then [] else [⟨tag, .number n⟩]

/-- What nested messages of one tag are read back as. -/
def bytesFields (tag : Nat) (l : List (List UInt8)) : List Field := l.map (⟨tag, .bytes ·⟩)

/-- The bytes are read as the fields, and the reader goes on with what follows. -/
def Reads (bytes : List UInt8) (fs : List Field) : Prop :=
  ∀ rest, tokens (bytes ++ rest) = (tokens rest).map (fs.map .field ++ ·)

theorem tokens_of_readToken {bytes rest : List UInt8} {t : Token}
    (h : readToken bytes = some (t, rest)) : tokens bytes = (tokens rest).map (t :: ·) := by
  cases bytes with
  | nil =>
    have := length_lt_of_readToken h
    simp at this
  | cons b tail =>
    rw [tokens]
    split
    · simp_all
    · rename_i t' rest' h'
      rw [h] at h'
      cases h'
      rfl

namespace Reads

theorem nil : Reads [] [] := fun rest => by simp

theorem append {a b : List UInt8} {fs gs : List Field} (ha : Reads a fs) (hb : Reads b gs) :
    Reads (a ++ b) (fs ++ gs) := fun rest => by
  rw [List.append_assoc, ha, hb]
  simp [Function.comp_def]

theorem putNumber {tag n : Nat} (h0 : 0 < tag) (ht : 8 * tag < UInt32.size)
    (hn : n < UInt64.size) : Reads (Wire.putNumber tag n) (numberField tag n) := by
  intro rest
  unfold Wire.putNumber numberField
  split
  · simp
  · have hkey := Varint.decode_encode (Nat.lt_trans ht (by decide : UInt32.size < UInt64.size))
      (Varint.encode n ++ rest)
    have hread : readToken (Varint.encode (8 * tag) ++ (Varint.encode n ++ rest)) =
        some (.field ⟨tag, .number n⟩, rest) := by
      have hdiv : 8 * tag / 8 = tag := by omega
      have hmod : 8 * tag % 8 = 0 := by omega
      have hfits : (decide (UInt32.size ≤ 8 * tag) || decide (tag = 0)) = false := by
        simp only [Bool.or_eq_false_iff, decide_eq_false_iff_not]
        omega
      simp [readToken, hkey, hdiv, hmod, hfits, Varint.decode_encode hn]
    rw [List.append_assoc, tokens_of_readToken hread]
    simp

theorem putBytes {tag : Nat} {content : List UInt8} (h0 : 0 < tag)
    (ht : 8 * tag + 2 < UInt32.size) (hc : content.length < UInt64.size) :
    Reads (Wire.putBytes tag content) [⟨tag, .bytes content⟩] := by
  intro rest
  have hkey := Varint.decode_encode (Nat.lt_trans ht (by decide : UInt32.size < UInt64.size))
    (Varint.encode content.length ++ (content ++ rest))
  have hread : readToken (Wire.putBytes tag content ++ rest) =
      some (.field ⟨tag, .bytes content⟩, rest) := by
    have hdiv : (8 * tag + 2) / 8 = tag := by omega
    have hmod : (8 * tag + 2) % 8 = 2 := by omega
    have hfits : (decide (UInt32.size ≤ 8 * tag + 2) || decide (tag = 0)) = false := by
      simp only [Bool.or_eq_false_iff, decide_eq_false_iff_not]
      omega
    simp [Wire.putBytes, readToken, hkey, hdiv, hmod, hfits, Varint.decode_encode hc, skip?]
  rw [tokens_of_readToken hread]
  simp

theorem putEach {α : Type} (tag : Nat) {encode : α → List UInt8} {l : List α} (h0 : 0 < tag)
    (ht : 8 * tag + 2 < UInt32.size) (h : ∀ a ∈ l, (encode a).length < UInt64.size) :
    Reads (l.flatMap fun a => Wire.putBytes tag (encode a)) (bytesFields tag (l.map encode)) := by
  induction l with
  | nil => exact nil
  | cons a l ih =>
    exact (putBytes h0 ht (h a List.mem_cons_self)).append
      (ih fun b hb => h b (List.mem_cons_of_mem _ hb))

end Reads

theorem outline_fields (levels : Nat) (fs : List Field) :
    outline levels [] (fs.map .field) = some fs := by
  induction fs with
  | nil => rfl
  | cons f fs ih => simp [outline, ih]

theorem fields_eq_some {bytes : List UInt8} {fs : List Field} (h : Reads bytes fs)
    (levels : Nat) : fields levels bytes = some fs := by
  have hall : tokens bytes = some (fs.map .field) := by
    have := h []
    rw [List.append_nil] at this
    rw [this, tokens]
    simp
  rw [fields, hall]
  exact outline_fields levels fs

/-! ## Fields by tag -/

theorem filter_numberField (tag t n : Nat) :
    (numberField t n).filter (·.tag = tag) = if t = tag then numberField tag n else [] := by
  unfold numberField
  split <;> by_cases h : t = tag <;> simp [h]

theorem filter_bytesFields (tag t : Nat) (l : List (List UInt8)) :
    (bytesFields t l).filter (·.tag = tag) = if t = tag then bytesFields tag l else [] := by
  unfold bytesFields
  induction l with
  | nil => simp
  | cons content l ih => by_cases h : t = tag <;> simp_all

/-- A number that was written once is read back, also if it was left out. -/
theorem number_of_filter {tag n : Nat} {fs : List Field}
    (h : fs.filter (·.tag = tag) = numberField tag n) : number tag fs = some n := by
  unfold number
  rw [h]
  unfold numberField
  split <;> simp_all

theorem contents_of_filter {tag : Nat} {fs : List Field} {l : List (List UInt8)}
    (h : fs.filter (·.tag = tag) = bytesFields tag l) : contents tag fs = some l := by
  unfold contents
  rw [h]
  clear h
  unfold bytesFields
  induction l with
  | nil => rfl
  | cons content l ih => simp_all

end DebugSymbols.Wire
