import DebugSymbols.Dwarf.Entry
import Mathlib.Tactic.Common

/-!
Readers only go forward.  `Forward` says that of a reader, and that it does not leave the data;
`Advancing` that it takes a byte at least.  Readers that are put together from such readers go
forward as well, so the readers of headers and entries do.
-/

namespace DebugSymbols

namespace Read

variable {α β : Type}

/-- An answer is given on the same data, not before the position of the question. -/
def Forward (r : Read α) : Prop :=
  ∀ c a c', r.run c = some (a, c') →
    c'.data = c.data ∧ c.position ≤ c'.position ∧
      (c.position ≤ c.data.size → c'.position ≤ c.data.size)

/-- An answer takes a byte at least. -/
def Advancing (r : Read α) : Prop :=
  ∀ c a c', r.run c = some (a, c') → c.position < c'.position

/-! ## Putting readers together -/

theorem forward_pure (a : α) : Forward (pure a : Read α) := by
  intro c b c' h
  cases h
  exact ⟨rfl, Nat.le_refl _, id⟩

theorem forward_failure : Forward (failure : Read α) := by
  intro c a c' h
  cases h

theorem run_bind_some {r : Read α} {f : α → Read β} {c c'' : Cursor} {b : β}
    (h : (r >>= f).run c = some (b, c'')) :
    ∃ a c', r.run c = some (a, c') ∧ (f a).run c' = some (b, c'') := by
  rw [StateT.run_bind] at h
  cases hr : r.run c with
  | none => simp [hr] at h
  | some p => exact ⟨p.1, p.2, rfl, by simpa [hr] using h⟩

theorem forward_bind {r : Read α} {f : α → Read β} (hr : Forward r) (hf : ∀ a, Forward (f a)) :
    Forward (r >>= f) := by
  intro c b c'' h
  obtain ⟨a, c', h₁, h₂⟩ := run_bind_some h
  obtain ⟨d₁, p₁, s₁⟩ := hr c a c' h₁
  obtain ⟨d₂, p₂, s₂⟩ := hf a c' b c'' h₂
  rw [d₁] at d₂ s₂
  exact ⟨d₂, Nat.le_trans p₁ p₂, fun hc => s₂ (s₁ hc)⟩

theorem advancing_bind {r : Read α} {f : α → Read β} (hr : Advancing r)
    (hf : ∀ a, Forward (f a)) : Advancing (r >>= f) := by
  intro c b c'' h
  obtain ⟨a, c', h₁, h₂⟩ := run_bind_some h
  exact Nat.lt_of_lt_of_le (hr c a c' h₁) (hf a c' b c'' h₂).2.1

theorem forward_ite {p : Prop} [Decidable p] {r r' : Read α} (h : Forward r) (h' : Forward r') :
    Forward (if p then r else r') := by
  split
  · exact h
  · exact h'

theorem forward_mapM {f : α → Read β} (h : ∀ a, Forward (f a)) (l : List α) :
    Forward (l.mapM f) := by
  induction l with
  | nil => exact forward_pure []
  | cons a l ih =>
    rw [List.mapM_cons]
    exact forward_bind (h a) fun b => forward_bind ih fun bs => forward_pure (b :: bs)

/-! ## Bytes and numbers -/

theorem forward_remaining : Forward remaining := by
  intro c a c' h
  cases h
  exact ⟨rfl, Nat.le_refl _, id⟩

theorem run_byte {c c' : Cursor} {b : UInt8} (h : byte.run c = some (b, c')) :
    c'.data = c.data ∧ c'.position = c.position + 1 ∧ c.position < c.data.size := by
  unfold byte at h
  obtain ⟨a, c₁, h₁, h⟩ := run_bind_some h
  cases h₁
  split at h
  · rename_i hget
    cases h
    refine ⟨rfl, rfl, ?_⟩
    by_contra hge
    rw [getElem?_neg c.data c.position hge] at hget
    cases hget
  · cases h

theorem forward_byte : Forward byte := by
  intro c b c' h
  obtain ⟨hd, hp, hs⟩ := run_byte h
  exact ⟨hd, by omega, fun _ => by omega⟩

theorem advancing_byte : Advancing byte := by
  intro c b c' h
  have := (run_byte h).2.1
  omega

theorem run_bytes {n : Nat} {c c' : Cursor} {b : ByteArray} (h : (bytes n).run c = some (b, c')) :
    c' = { c with position := c.position + n } ∧ n ≤ c.data.size - c.position ∧
      b = c.data.extract c.position (c.position + n) := by
  unfold bytes at h
  obtain ⟨a, c₁, h₁, h⟩ := run_bind_some h
  cases h₁
  split at h
  · rename_i hn
    cases h
    exact ⟨rfl, hn, rfl⟩
  · cases h

theorem forward_bytes (n : Nat) : Forward (bytes n) := by
  intro c b c' h
  obtain ⟨rfl, hn, -⟩ := run_bytes h
  exact ⟨rfl, by simp, fun hc => by simp only; omega⟩

theorem forward_skip (n : Nat) : Forward (skip n) :=
  forward_bind (forward_bytes n) fun _ => forward_pure ()

theorem forward_number (order : ByteOrder) (width : Nat) : Forward (number order width) :=
  forward_bind (forward_bytes width) fun _ => forward_pure _

theorem forward_fixed (width : Nat) : Forward (fixed width) :=
  forward_bind (forward_number .little width) fun _ => forward_pure _

theorem forward_address (size : Nat) : Forward (address size) :=
  forward_ite (forward_fixed size) forward_failure

theorem forward_addressSize : Forward addressSize :=
  forward_bind forward_byte fun _ => forward_ite (forward_pure _) forward_failure

theorem forward_terminated : Forward terminated := by
  intro c b c' h
  unfold terminated at h
  obtain ⟨a, c₁, h₁, h⟩ := run_bind_some h
  cases h₁
  obtain ⟨n, c₂, h₂, h⟩ := run_bind_some h
  have hc : c₂ = c := by
    cases hz : toZero c.data c.position (c.data.size - c.position) with
    | none => rw [hz] at h₂; cases h₂
    | some m => rw [hz] at h₂; cases h₂; rfl
  rw [hc] at h
  exact forward_bind (forward_bytes n)
    (fun content => forward_bind (forward_skip 1) fun _ => forward_pure content) _ _ _ h

theorem forward_groups (n : Nat) : Forward (groups n) := by
  induction n with
  | zero => exact forward_failure
  | succ n ih =>
    exact forward_bind forward_byte fun b =>
      forward_ite (forward_pure _) (forward_bind ih fun _ => forward_pure _)

theorem advancing_groups (n : Nat) : Advancing (groups n) := by
  cases n with
  | zero =>
    intro c a c' h
    cases h
  | succ n =>
    exact advancing_bind advancing_byte fun b =>
      forward_ite (forward_pure _) (forward_bind (forward_groups n) fun _ => forward_pure _)

theorem forward_uleb : Forward uleb :=
  forward_bind (forward_groups 10) fun _ => forward_ite (forward_pure _) forward_failure

theorem advancing_uleb : Advancing uleb :=
  advancing_bind (advancing_groups 10) fun _ => forward_ite (forward_pure _) forward_failure

theorem forward_uleb16 : Forward uleb16 :=
  forward_bind (forward_groups 3) fun _ => forward_ite (forward_pure _) forward_failure

theorem forward_sleb : Forward sleb :=
  forward_bind (forward_groups 10) fun _ =>
    forward_ite (forward_bind forward_failure fun _ => forward_pure _) (forward_pure _)

theorem forward_counted (width : Nat) : Forward (counted width) :=
  forward_bind (forward_fixed width) fun n => forward_bytes n.toNat

theorem forward_counted' : Forward counted' :=
  forward_bind forward_uleb fun n => forward_bytes n.toNat

end Read

/-! ## Attributes -/

open Read

theorem AttributeValue.forward_readDirect (enc : Encoding) (spec : AttributeSpec) (form : Form) :
    Forward (readDirect enc spec form) := by
  have u8 : Forward Read.u8 := forward_bind forward_byte fun _ => forward_pure _
  cases form with
  | addr => exact forward_bind (forward_address _) fun _ => forward_pure _
  | block1 | block2 | block4 => exact forward_bind (forward_counted _) fun _ => forward_pure _
  | block | exprloc => exact forward_bind forward_counted' fun _ => forward_pure _
  | data1 | strx1 | addrx1 | ref1 => exact forward_bind u8 fun _ => forward_pure _
  | data4 | data8 =>
    exact forward_bind (forward_fixed _) fun _ => forward_ite (forward_pure _) (forward_pure _)
  | data2 | strx2 | strx3 | strx4 | addrx2 | addrx3 | addrx4 | ref2 | ref4 | ref8 | strp |
    lineStrp | strpSup | refAlt | secOffset =>
    exact forward_bind (forward_fixed _) fun _ => forward_pure _
  | data16 => exact forward_bind (forward_bytes 16) fun _ => forward_pure _
  | udata | strx | addrx | refUdata | loclistx | rnglistx =>
    exact forward_bind forward_uleb fun _ => forward_pure _
  | sdata => exact forward_bind forward_sleb fun _ => forward_pure _
  | implicitConst =>
    cases himplicit : spec.implicit with
    | none => simpa only [readDirect, himplicit] using forward_failure
    | some value => simpa only [readDirect, himplicit] using forward_pure _
  | string => exact forward_bind forward_terminated fun _ => forward_pure _
  | flag => exact forward_bind forward_byte fun _ => forward_pure _
  | flagPresent => exact forward_pure _
  | refAddr =>
    exact forward_ite (forward_bind (forward_address _) fun _ => forward_pure _)
      (forward_bind (forward_fixed _) fun _ => forward_pure _)
  | refSig8 | refSup8 | refSup4 => exact forward_bind (forward_skip _) fun _ => forward_pure _
  | indirect => exact forward_failure

theorem AttributeValue.forward_readForm (enc : Encoding) (spec : AttributeSpec) (fuel : Nat)
    (code : UInt16) : Forward (readForm enc spec fuel code) := by
  induction fuel generalizing code with
  | zero => exact forward_failure
  | succ fuel ih =>
    unfold readForm
    split
    · exact forward_bind forward_uleb16 fun code => ih code
    · exact forward_readDirect enc spec _
    · exact forward_failure

theorem Attribute.forward_read (enc : Encoding) (spec : AttributeSpec) :
    Forward (Attribute.read enc spec) :=
  forward_bind forward_remaining fun n =>
    forward_bind (AttributeValue.forward_readForm enc spec (n + 1) spec.form) fun _ =>
      forward_pure _

end DebugSymbols
