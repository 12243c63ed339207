import DebugSymbols.Proofs.Database.Calls
import DebugSymbols.Proofs.Database.Sizes

/-!
When a size stays unknown.  All that the size of a `Grounded` type is looked up through is there,
so unless a type is completed or a definition is made (`Steady`), it does not get a size that it
had not before (`Grounded.typeSize?_eq_none`).
-/

namespace DebugSymbols

/-- The type whose size is that of this one, or makes it up. -/
def TypeShape.inner? : TypeShape → Option Ordinal
  | const inner | volatile inner | array inner _ => some inner
  | _ => none

theorem TypeShape.IsDefinition.inner? {shape : TypeShape} (h : shape.IsDefinition) :
    shape.inner? = none ∧ ∀ target, shape ≠ .typedef target := by
  cases shape with
  | struct | union | enum => exact ⟨rfl, nofun⟩
  | _ => exact h.elim

namespace Database

variable {db db' db'' : Database}

/-! ## What a size is looked up through -/

/-- The size of the type is looked up through types that are there, down to one that has its own
size or none. -/
inductive Grounded (db : Database) : Ordinal → Prop
  | own {o : Ordinal} {t : NamedType} :
      db.numberedType? o = some t → t.shape.inner? = none → (∀ target, t.shape ≠ .typedef target) →
      Grounded db o
  | inner {o o' : Ordinal} {t : NamedType} :
      db.numberedType? o = some t → t.shape.inner? = some o' → Grounded db o' → Grounded db o
  | named {o o' : Ordinal} {t : NamedType} {target : String} :
      db.numberedType? o = some t → t.shape = .typedef target →
      db.namedType? target = some o' → Grounded db o' → Grounded db o

theorem Grounded.of_isDefinition {o : Ordinal} {t : NamedType} (ht : db.numberedType? o = some t)
    (h : t.shape.IsDefinition) : db.Grounded o :=
  .own ht h.inner?.1 h.inner?.2

theorem Grounded.mono (he : Extends db db') {o : Ordinal} (h : db.Grounded o) :
    db'.Grounded o := by
  induction h with
  | @own o t ht hinner hnot =>
    obtain ⟨t', ht', hbecomes⟩ := he.types ht
    rcases hbecomes.shape with heq | ⟨-, hdef⟩
    · exact .own ht' (heq ▸ hinner) (heq ▸ hnot)
    · exact .of_isDefinition ht' hdef
  | @inner o o' t ht hinner _ ih =>
    refine .inner (he.type_eq ht fun heq => ?_) hinner ih
    rw [heq] at hinner
    cases hinner
  | @named o o' t target ht hshape hnamed _ ih =>
    exact .named (he.type_eq ht (by simp [hshape])) hshape (he.named hnamed) ih

/-- What the size of a type of the shape is looked up through is grounded. -/
def Supports (db : Database) (shape : TypeShape) : Prop :=
  (∀ o, shape.inner? = some o → db.Grounded o) ∧
    ∀ target, shape = .typedef target → ∃ o, db.namedType? target = some o ∧ db.Grounded o

theorem Supports.mono (he : Extends db db') {shape : TypeShape} (h : db.Supports shape) :
    db'.Supports shape := by
  refine ⟨fun o ho => (h.1 o ho).mono he, fun target htarget => ?_⟩
  obtain ⟨o, hnamed, hgrounded⟩ := h.2 target htarget
  exact ⟨o, he.named hnamed, hgrounded.mono he⟩

theorem supports_of_inner {shape : TypeShape} {o : Ordinal} (hshape : shape.inner? = some o)
    (h : db.Grounded o) : db.Supports shape := by
  refine ⟨fun o' ho => ?_, fun target htarget => ?_⟩
  · rw [hshape] at ho
    cases ho
    exact h
  · rw [htarget] at hshape
    cases hshape

theorem Supports.grounded {o : Ordinal} {t : NamedType} (h : db.Supports t.shape)
    (ht : db.numberedType? o = some t) : db.Grounded o := by
  cases hinner : t.shape.inner? with
  | some o' => exact .inner ht hinner (h.1 o' hinner)
  | none =>
    by_cases htarget : ∃ target, t.shape = .typedef target
    · obtain ⟨target, htarget⟩ := htarget
      obtain ⟨o', hnamed, hgrounded⟩ := h.2 target htarget
      exact .named ht htarget hnamed hgrounded
    · exact .own ht hinner fun target heq => htarget ⟨target, heq⟩

/-! ## Growth without new definitions -/

/-- Types may be added and structures may get members, but no type is completed and no definition
is made. -/
structure Steady (db db' : Database) : Prop where
  extends_ : Extends db db'
  types : ∀ {o t}, db.numberedType? o = some t → db'.numberedType? o = some t
  enums : db'.enums = db.enums
  structs : db'.structs.size = db.structs.size

theorem Steady.refl (db : Database) : Steady db db := ⟨.refl db, id, rfl, rfl⟩

theorem Steady.trans (h : Steady db db') (h' : Steady db' db'') : Steady db db'' :=
  ⟨h.extends_.trans h'.extends_, fun ht => h'.types (h.types ht), h'.enums.trans h.enums,
    h'.structs.trans h.structs⟩

theorem steady_addNamedType? {name : String} {shape : TypeShape} {o : Ordinal}
    (h : db.addNamedType? name shape = some (o, db')) : Steady db db' := by
  have he := extends_addNamedType? h
  obtain ⟨-, -, rfl⟩ := addNamedType?_eq_some h
  refine ⟨he, fun {o' t} ht => ?_, rfl, rfl⟩
  rw [numberedType?_push rfl, if_neg (Nat.ne_of_lt (numberedType?_lt ht)), ht]

theorem steady_of_sameTypes {h h' : Host} (hs : h.SameTypes h') :
    Steady h.database h'.database :=
  ⟨hs.extends.database, fun ht => by rwa [numberedType?_congr hs.types], hs.enums,
    congrArg Array.size hs.structs⟩

theorem AddsMember.steady {id : StructId} {m : Member} {d : StructDef}
    (h : AddsMember db id m d db') : Steady db db' := by
  have he := h.extends
  obtain rfl := h.eq
  exact ⟨he, fun ht => ht, rfl, by simp⟩

/-! ## Sizes -/

/-- Where a member of a structure or union ends. -/
def StructDef.memberEnd (d : StructDef) (m : Member) : UInt64 :=
  if d.isUnion then m.size else m.offset + m.size

theorem StructDef.size_eq (d : StructDef) :
    StructDef.size d = (d.members.map (memberEnd d)).foldl max 0 := by
  rw [List.foldl_map]
  rfl

theorem uint64_max_le_iff {a b n : UInt64} : max a b ≤ n ↔ a ≤ n ∧ b ≤ n := by
  change (if a ≤ b then b else a) ≤ n ↔ _
  split <;> simp only [UInt64.le_iff_toNat_le] at * <;> omega

theorem foldl_max_le_iff {ends : List UInt64} {acc n : UInt64} :
    ends.foldl max acc ≤ n ↔ acc ≤ n ∧ ∀ k ∈ ends, k ≤ n := by
  induction ends generalizing acc with
  | nil => simp
  | cons k rest ih => rw [List.foldl_cons, ih, uint64_max_le_iff, List.forall_mem_cons, and_assoc]

/-- More members take no less space. -/
theorem StructDef.size_le {d : StructDef} {members : List Member} (h : d.members ⊆ members) :
    StructDef.size d ≤ StructDef.size { d with members } := by
  rw [size_eq d, foldl_max_le_iff]
  refine ⟨UInt64.zero_le, fun k hk => ?_⟩
  obtain ⟨m, hm, rfl⟩ := List.mem_map.mp hk
  rw [size_eq { d with members }]
  exact (foldl_max_le_iff.mp (UInt64.le_refl _)).2 _ (List.mem_map_of_mem (h hm))

theorem checkedMul_le {a b c n : UInt64} (hab : a ≤ b) (h : checkedMul b c = some n) :
    ∃ k, checkedMul a c = some k ∧ k ≤ n := by
  obtain ⟨hlt, hn⟩ := checkedMul_eq_some.mp h
  have hle : a.toNat * c.toNat ≤ b.toNat * c.toNat :=
    Nat.mul_le_mul_right _ (UInt64.le_iff_toNat_le.mp hab)
  have hprod : (a * c).toNat = a.toNat * c.toNat := by
    rw [UInt64.toNat_mul, Nat.mod_eq_of_lt (Nat.lt_of_le_of_lt hle hlt)]
  refine ⟨a * c, checkedMul_eq_some.mpr ⟨Nat.lt_of_le_of_lt hle hlt, hprod⟩, ?_⟩
  rw [UInt64.le_iff_toNat_le, hprod, hn]
  exact hle

theorem Steady.structDef?_size_le (hs : Steady db db') {id : StructId} {d' : StructDef}
    (hd' : db'.structDef? id = some d') :
    ∃ d, db.structDef? id = some d ∧ StructDef.size d ≤ StructDef.size d' := by
  have hlt : id.val < db.structs.size := by
    rw [← hs.structs]
    exact (Array.getElem?_eq_some_iff.mp hd').1
  have hd : db.structDef? id = some db.structs[id.val] := Array.getElem?_eq_getElem hlt
  obtain ⟨members, hnew, hsub⟩ := hs.extends_.structs hd
  rw [hd'] at hnew
  cases hnew
  exact ⟨_, hd, StructDef.size_le hsub⟩

theorem Steady.ownSize?_le (hs : Steady db db') {shape : TypeShape} {n : UInt64}
    (hn : db'.ownSize? shape = some n) : ∃ k, db.ownSize? shape = some k ∧ k ≤ n := by
  cases shape with
  | void | incomplete | function | const | volatile | array | typedef => cases hn
  | bool | int | float => exact ⟨n, hn, UInt64.le_refl _⟩
  | pointer =>
    exact ⟨n, (congrArg some hs.extends_.pointerSize.symm).trans hn, UInt64.le_refl _⟩
  | struct id | union id =>
    obtain ⟨d', hd', rfl⟩ := Option.map_eq_some_iff.mp hn
    obtain ⟨d, hd, hle⟩ := hs.structDef?_size_le hd'
    exact ⟨_, Option.map_eq_some_iff.mpr ⟨d, hd, rfl⟩, hle⟩
  | enum id =>
    refine ⟨n, ?_, UInt64.le_refl _⟩
    simp only [ownSize?, enumDef?, hs.enums] at hn
    exact hn

theorem sizeSource?_eq_none_of_own {shape : TypeShape} (hinner : shape.inner? = none)
    (hnot : ∀ target, shape ≠ .typedef target) : db.sizeSource? shape = none := by
  cases shape with
  | const | volatile | array => cases hinner
  | typedef target => exact absurd rfl (hnot target)
  | _ => rfl

theorem sizeSource?_eq_some_of_inner {shape : TypeShape} {o inner : Ordinal} {count : UInt64}
    (hinner : shape.inner? = some o) (hsource : db'.sizeSource? shape = some (inner, count)) :
    inner = o ∧ db.sizeSource? shape = some (inner, count) := by
  cases shape with
  | const | volatile =>
    cases hinner
    cases hsource
    exact ⟨rfl, rfl⟩
  | array =>
    cases hinner
    exact ⟨(sizeSource?_array_eq_some.mp hsource).2.1.symm, hsource⟩
  | _ => cases hinner

/-- What the size of a grounded type follows from is what it followed from before. -/
theorem Grounded.sizeSource? (hs : Steady db db') {o inner : Ordinal} {t : NamedType}
    {count : UInt64} (h : db.Grounded o) (ht : db.numberedType? o = some t)
    (hsource : db'.sizeSource? t.shape = some (inner, count)) :
    db.sizeSource? t.shape = some (inner, count) ∧ db.Grounded inner := by
  cases h with
  | own ht' hinner hnot =>
    obtain rfl := Option.some.inj (ht.symm.trans ht')
    rw [sizeSource?_eq_none_of_own hinner hnot] at hsource
    cases hsource
  | inner ht' hinner hgrounded =>
    obtain rfl := Option.some.inj (ht.symm.trans ht')
    obtain ⟨rfl, hsame⟩ := sizeSource?_eq_some_of_inner hinner hsource
    exact ⟨hsame, hgrounded⟩
  | named ht' hshape hnamed hgrounded =>
    obtain rfl := Option.some.inj (ht.symm.trans ht')
    rw [hshape] at hsource ⊢
    simp only [Database.sizeSource?, hs.extends_.named hnamed, hnamed] at hsource ⊢
    cases hsource
    exact ⟨rfl, hgrounded⟩

theorem Grounded.known {o : Ordinal} (h : db.Grounded o) : ∃ t, db.numberedType? o = some t := by
  cases h with
  | own ht | inner ht | named ht => exact ⟨_, ht⟩

/-- A size that is there afterwards was there before, though it may have been smaller. -/
theorem Grounded.sizeWithin_le (hs : Steady db db') {o : Ordinal} (h : db.Grounded o) {steps : Nat}
    {n : UInt64} (hn : db'.sizeWithin steps o = some n) :
    ∃ k, db.sizeWithin steps o = some k ∧ k ≤ n := by
  induction steps generalizing o n with
  | zero => cases hn
  | succ steps ih =>
    obtain ⟨t, ht⟩ := h.known
    obtain ⟨t', ht', hsize⟩ := sizeWithin_succ_eq_some_iff.mp hn
    obtain rfl := Option.some.inj ((hs.types ht).symm.trans ht')
    rcases hsize with hown | ⟨inner, count, b, hsource, hb, hmul⟩
    · obtain ⟨k, hk, hle⟩ := hs.ownSize?_le hown
      exact ⟨k, sizeWithin_succ_eq_some_iff.mpr ⟨t, ht, .inl hk⟩, hle⟩
    · obtain ⟨hsource', hgrounded⟩ := h.sizeSource? hs ht hsource
      obtain ⟨a, ha, hab⟩ := ih hgrounded hb
      obtain ⟨k, hk, hkn⟩ := checkedMul_le hab hmul
      exact ⟨k, sizeWithin_succ_eq_some_iff.mpr
        ⟨t, ht, .inr ⟨inner, count, a, hsource', ha, hk⟩⟩, hkn⟩

theorem Grounded.typeSize?_eq_none (hs : Steady db db') {o : Ordinal} (h : db.Grounded o)
    (hnone : db.typeSize? o = none) : db'.typeSize? o = none := by
  cases hsize : db'.typeSize? o with
  | none => rfl
  | some n =>
    obtain ⟨k, hk, -⟩ := h.sizeWithin_le hs hsize
    rw [typeSize?, hk] at hnone
    cases hnone

end Database

end DebugSymbols
