import DebugSymbols.Wire.Varint

/-!
Messages of tagged fields.  A message is a sequence of fields, each a key that holds a tag and
the kind of the payload, then the payload.  A reader skips the fields whose tags it does not
know; groups are an old kind of nested message, which are only ever skipped.
-/

namespace DebugSymbols.Wire

inductive Payload where
  | number (n : Nat)
  | fixed32
  | fixed64
  | bytes (content : List UInt8)
  | group
deriving DecidableEq, Repr

structure Field where
  tag : Nat
  payload : Payload
deriving DecidableEq, Repr

/-! ## Writing -/

/-- A zero is not written: it is what a missing field reads as. -/
def putNumber (tag n : Nat) : List UInt8 :=
  if n = 0 then [] else Varint.encode (8 * tag) ++ Varint.encode n

def putBytes (tag : Nat) (content : List UInt8) : List UInt8 :=
  Varint.encode (8 * tag + 2) ++ Varint.encode content.length ++ content

/-! ## Reading -/

/-- What a key introduces: a field of its own, or one end of a group. -/
inductive Token where
  | field (f : Field)
  | opening (tag : Nat)
  | closing (tag : Nat)

/-- Drops `n` bytes, if there are as many. -/
def skip? (n : Nat) (bytes : List UInt8) : Option (List UInt8) :=
  if n ≤ bytes.length then some (bytes.drop n) else none

/-- Reads a key, which fits 32 bits and has a positive tag, and the payload of its kind. -/
def readToken (bytes : List UInt8) : Option (Token × List UInt8) :=
  match Varint.decode bytes with
  | none => none
  | some (key, rest) =>
    let tag := key / 8
    if UInt32.size ≤ key || tag = 0 then none
    else
      match key % 8 with
      | 0 => (Varint.decode rest).map fun r => (.field ⟨tag, .number r.1⟩, r.2)
      | 1 => (skip? 8 rest).map fun after => (.field ⟨tag, .fixed64⟩, after)
      | 2 =>
        (Varint.decode rest).bind fun r =>
          (skip? r.1 r.2).map fun after => (.field ⟨tag, .bytes (r.2.take r.1)⟩, after)
      | 3 => some (.opening tag, rest)
      | 4 => some (.closing tag, rest)
      | 5 => (skip? 4 rest).map fun after => (.field ⟨tag, .fixed32⟩, after)
      | _ => none

theorem length_le_of_skip? {n : Nat} {bytes rest : List UInt8} (h : skip? n bytes = some rest) :
    rest.length ≤ bytes.length := by
  unfold skip? at h
  split at h <;> simp at h
  simp [← h]

theorem length_lt_of_readToken {bytes rest : List UInt8} {t : Token}
    (h : readToken bytes = some (t, rest)) : rest.length < bytes.length := by
  unfold readToken at h
  split at h
  · simp at h
  · rename_i key tail hkey
    have hlt := Varint.length_lt_of_decode hkey
    dsimp only at h
    split at h
    · simp at h
    · split at h
      · obtain ⟨r, hr, he⟩ := Option.map_eq_some_iff.1 h
        have := Varint.length_lt_of_decode hr
        grind
      · obtain ⟨r, hr, he⟩ := Option.map_eq_some_iff.1 h
        have := length_le_of_skip? hr
        grind
      · obtain ⟨r, hr, he⟩ := Option.bind_eq_some_iff.1 h
        obtain ⟨s, hs, he⟩ := Option.map_eq_some_iff.1 he
        have := Varint.length_lt_of_decode hr
        have := length_le_of_skip? hs
        grind
      · grind
      · grind
      · obtain ⟨r, hr, he⟩ := Option.map_eq_some_iff.1 h
        have := length_le_of_skip? hr
        grind
      · simp at h

/-- All tokens of a message. -/
def tokens (bytes : List UInt8) : Option (List Token) :=
  match bytes with
  | [] => some []
  | b :: tail =>
    match h : readToken (b :: tail) with
    | none => none
    | some (t, rest) =>
      have := length_lt_of_readToken h
      (tokens rest).map (t :: ·)
termination_by bytes.length
decreasing_by exact this

/-- The fields outside all groups, a group counting as one of them.  `enclosing` holds the tags
of the groups that are open, innermost first; content within `levels` of them is too deep. -/
def outline (levels : Nat) : List Nat → List Token → Option (List Field)
  | [], [] => some []
  | _ :: _, [] => none
  | [], .field f :: rest => (outline levels [] rest).map (f :: ·)
  | [], .opening tag :: rest => (outline levels [tag] rest).map (⟨tag, .group⟩ :: ·)
  | [], .closing _ :: _ => none
  | enclosing@(tag :: outer), t :: rest =>
    match t with
    | .closing tag' => if tag' = tag then outline levels outer rest else none
    | .field _ => if enclosing.length < levels then outline levels enclosing rest else none
    | .opening tag' =>
      if enclosing.length < levels then outline levels (tag' :: enclosing) rest else none

/-- The fields of a message in which groups nest less than `levels` deep. -/
def fields (levels : Nat) (bytes : List UInt8) : Option (List Field) :=
  (tokens bytes).bind (outline levels [])

/-! ## Fields by tag -/

/-- The number of the last field with the tag, zero if there is none. -/
def number (tag : Nat) (fs : List Field) : Option Nat :=
  (fs.filter (·.tag = tag)).foldlM (fun _ f =>
    match f.payload with
    | .number n => some n
    | _ => none) 0

/-- The contents of all fields with the tag. -/
def contents (tag : Nat) (fs : List Field) : Option (List (List UInt8)) :=
  (fs.filter (·.tag = tag)).mapM fun f =>
    match f.payload with
    | .bytes content => some content
    | _ => none

end DebugSymbols.Wire
