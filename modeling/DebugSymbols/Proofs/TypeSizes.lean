import DebugSymbols.Proofs.Database.Calls
import DebugSymbols.Proofs.Database.Sizes
import Mathlib.Algebra.BigOperators.Group.List.Basic

/-!
Sizes of types.  A size is looked up step by step: a qualified type leads to the type that is
qualified, an array to its elements, which count as often as there are, and another name to the
type of that name (`Advances`).  Types of a few shapes have a size of their own (`HasSize`).

Main statement: `typeSize?_eq_some_iff`.  Names and ordinals may form cycles, so the steps of a
way need not come to an end; the look-up does.
-/

namespace DebugSymbols

namespace Database

/-! ## Records -/

/-- Where a member ends; all members of a union start at the same place. -/
def StructDef.endOf (d : StructDef) (m : Member) : Nat :=
  if d.isUnion then m.size.toNat else m.offset.toNat + m.size.toNat

/-- Where the last member ends. -/
def StructDef.extent (d : StructDef) : Nat := (d.members.map (endOf d)).max?.getD 0

/-- All members end within 64 bits. -/
def MembersFit (db : Database) : Prop :=
  ∀ d ∈ db.structs.toList, ∀ m ∈ d.members, StructDef.endOf d m < UInt64.size

instance (db : Database) : Decidable db.MembersFit :=
  inferInstanceAs (Decidable (∀ _ ∈ _, _))

theorem StructDef.toNat_size {d : StructDef}
    (h : ∀ m ∈ d.members, endOf d m < UInt64.size) : (size d).toNat = extent d := by
  have hfold (members : List Member) (hmembers : ∀ m ∈ members, endOf d m < UInt64.size)
      (acc : UInt64) :
      (members.foldl (fun acc m => max acc (if d.isUnion then m.size else m.offset + m.size))
        acc).toNat = (members.map (endOf d)).foldl max acc.toNat := by
    induction members generalizing acc with
    | nil => rfl
    | cons m rest ih =>
      rw [List.foldl_cons, ih (fun m' hm' => hmembers m' (by simp [hm'])), List.map_cons,
        List.foldl_cons, UInt64.toNat_max]
      have hm := hmembers m (by simp)
      unfold endOf at hm
      congr 2
      unfold endOf
      cases hunion : d.isUnion with
      | true => rfl
      | false =>
        exact (UInt64.toNat_add _ _).trans (Nat.mod_eq_of_lt (by simpa [hunion] using hm))
  unfold size extent
  rw [hfold d.members h 0, List.foldl_max]
  simp

variable {db : Database} {o o' : Ordinal}

theorem MembersFit.toNat_size (h : db.MembersFit) {id : StructId} {d : StructDef}
    (hd : db.structDef? id = some d) : (StructDef.size d).toNat = StructDef.extent d :=
  StructDef.toNat_size (h d (Array.mem_toList_iff.mpr (Array.mem_of_getElem? hd)))

/-! ## Ways to a size -/

/-- The size of the type follows from that of another one, which counts `factor` times. -/
def Advances (db : Database) (o : Ordinal) (factor : Nat) (o' : Ordinal) : Prop :=
  ∃ t, db.numberedType? o = some t ∧
    match t.shape with
    | .const inner | .volatile inner => factor = 1 ∧ inner = o'
    | .array element count => count ≠ 0 ∧ factor = count.toNat ∧ element = o'
    | .typedef target => factor = 1 ∧ ∃ shape, db.numberedType? o' = some ⟨target, shape⟩
    | _ => False

/-- The type has a size of its own. -/
def HasSize (db : Database) (o : Ordinal) (size : Nat) : Prop :=
  ∃ t, db.numberedType? o = some t ∧
    match t.shape with
    | .bool width => size = width.size.toNat
    | .int width _ _ => size = width.size.toNat
    | .float width => size = width.size.toNat
    | .pointer _ => size = db.pointerSize.toNat
    | .enum id => ∃ d, db.enumDef? id = some d ∧ size = d.width.toNat
    | .struct id | .union id => ∃ d, db.structDef? id = some d ∧ size = StructDef.extent d
    | _ => False

/-- Steps from one type to another, with their factors. -/
inductive Way (db : Database) : Ordinal → List Nat → Ordinal → Prop
  | here {o : Ordinal} : Way db o [] o
  | step {o o' e : Ordinal} {factor : Nat} {factors : List Nat} :
      db.Advances o factor o' → Way db o' factors e → Way db o (factor :: factors) e

/-- Names lead to the types that have them. -/
theorem namedType?_eq_some_iff (hc : db.Coherent) {name : String} :
    db.namedType? name = some o ↔ ∃ shape, db.numberedType? o = some ⟨name, shape⟩ := by
  constructor
  · exact numberedType?_of_named
  · rintro ⟨shape, ht⟩
    exact hc.named ht

theorem hasSize_iff_ownSize? (hfit : db.MembersFit) {s : UInt64} :
    db.HasSize o s.toNat ↔
      ∃ t, db.numberedType? o = some t ∧ db.ownSize? t.shape = some s := by
  refine exists_congr fun t => and_congr_right fun _ => ?_
  cases t.shape with
  | void | incomplete | function | const | volatile | array | typedef => simp [ownSize?]
  | bool | int | float | pointer => simp [ownSize?, ← UInt64.toNat_inj, eq_comm]
  | struct id | union id =>
    simp only [ownSize?, Option.map_eq_some_iff]
    refine exists_congr fun d => and_congr_right fun hd => ?_
    rw [← hfit.toNat_size hd, UInt64.toNat_inj, eq_comm]
  | enum id =>
    simp only [ownSize?, Option.map_eq_some_iff]
    refine exists_congr fun d => and_congr_right fun _ => ?_
    rw [← UInt64.toNat_inj, UInt8.toNat_toUInt64, eq_comm]

theorem advances_iff_sizeSource? (hc : db.Coherent) {factor : Nat} :
    db.Advances o factor o' ↔ ∃ t count, db.numberedType? o = some t ∧
      db.sizeSource? t.shape = some (o', count) ∧ factor = count.toNat := by
  unfold Advances
  refine exists_congr fun t => ?_
  rw [exists_and_left]
  refine and_congr_right fun _ => ?_
  cases t.shape with
  | const | volatile => simp [sizeSource?, and_comm]
  | array element number =>
    simp only [sizeSource?_array_eq_some]
    constructor
    · rintro ⟨hne, rfl, rfl⟩
      exact ⟨number, ⟨hne, rfl, rfl⟩, rfl⟩
    · rintro ⟨_, ⟨hne, rfl, rfl⟩, rfl⟩
      exact ⟨hne, rfl, rfl⟩
  | typedef => simp [sizeSource?, namedType?_eq_some_iff hc, and_comm]
  | void | incomplete | function | bool | int | float | pointer | struct | union | enum =>
    simp [sizeSource?]

/-- What a look-up of one step more comes to. -/
theorem sizeWithin_succ (hc : db.Coherent) (hfit : db.MembersFit) {steps : Nat} {s : UInt64} :
    db.sizeWithin (steps + 1) o = some s ↔
      db.HasSize o s.toNat ∨ ∃ factor o' inner, db.Advances o factor o' ∧
        db.sizeWithin steps o' = some inner ∧ inner.toNat * factor < UInt64.size ∧
          s.toNat = inner.toNat * factor := by
  rw [sizeWithin_succ_eq_some_iff, hasSize_iff_ownSize? hfit]
  simp only [advances_iff_sizeSource? hc, checkedMul_eq_some]
  constructor
  · rintro ⟨t, ht, hown | ⟨o', count, inner, hsource, hinner, hmul⟩⟩
    · exact .inl ⟨t, ht, hown⟩
    · exact .inr ⟨count.toNat, o', inner, ⟨t, count, ht, hsource, rfl⟩, hinner, hmul⟩
  · rintro (⟨t, ht, hown⟩ | ⟨_, o', inner, ⟨t, count, ht, hsource, rfl⟩, hinner, hmul⟩)
    · exact ⟨t, ht, .inl hown⟩
    · exact ⟨t, ht, .inr ⟨o', count, inner, hsource, hinner, hmul⟩⟩

/-- A look-up finds what lies at the end of a way that is not too long, times all factors, unless
it gets too large on the way back. -/
theorem sizeWithin_eq_some_iff (hc : db.Coherent) (hfit : db.MembersFit) {steps : Nat}
    {s : UInt64} :
    db.sizeWithin steps o = some s ↔ ∃ factors e own, db.Way o factors e ∧
      factors.length < steps ∧ db.HasSize e own ∧
      (∀ inner, inner <:+ factors → own * inner.prod < UInt64.size) ∧
      s.toNat = own * factors.prod := by
  induction steps generalizing o s with
  | zero => simp [sizeWithin]
  | succ steps ih =>
    rw [sizeWithin_succ hc hfit]
    constructor
    · rintro (hown | ⟨factor, o', inner, hadvances, hinner, hlt, hs⟩)
      · refine ⟨[], o, s.toNat, .here, Nat.succ_pos _, hown, fun inner hinner => ?_, by simp⟩
        rw [List.suffix_nil.mp hinner]
        simpa using s.toNat_lt
      · obtain ⟨factors, e, own, hway, hlength, hown, hsmall, hprod⟩ := ih.mp hinner
        have htotal : own * (factor :: factors).prod = inner.toNat * factor := by
          rw [hprod, List.prod_cons, Nat.mul_comm factor, Nat.mul_assoc]
        refine ⟨factor :: factors, e, own, .step hadvances hway, by simpa using hlength, hown,
          fun suffix hsuffix => ?_, hs.trans htotal.symm⟩
        rcases List.suffix_cons_iff.mp hsuffix with rfl | hsuffix
        · rw [htotal]
          exact hlt
        · exact hsmall suffix hsuffix
    · rintro ⟨factors, e, own, hway, hlength, hown, hsmall, hs⟩
      cases hway with
      | here =>
        left
        rw [hs, List.prod_nil, Nat.mul_one]
        exact hown
      | @step _ o' _ factor factors hadvances hway =>
        right
        have hinner : own * factors.prod < UInt64.size :=
          hsmall factors (List.suffix_cons factor factors)
        have htotal : own * (factor :: factors).prod = own * factors.prod * factor := by
          rw [List.prod_cons, Nat.mul_comm factor, Nat.mul_assoc]
        have hvalue : (UInt64.ofNat (own * factors.prod)).toNat = own * factors.prod :=
          UInt64.toNat_ofNat_of_lt' hinner
        refine ⟨factor, o', UInt64.ofNat (own * factors.prod), hadvances, ?_, ?_, ?_⟩
        · refine ih.mpr ⟨factors, e, own, hway, by simpa using hlength, hown, ?_, hvalue⟩
          intro suffix hsuffix
          exact hsmall suffix (hsuffix.trans (List.suffix_cons factor factors))
        · rw [hvalue, ← htotal]
          exact hsmall _ (List.suffix_refl _)
        · rw [hvalue, ← htotal]
          exact hs

/-! ## Ways that do not end -/

theorem HasSize.not_advances {size factor : Nat} (h : db.HasSize o size) :
    ¬ db.Advances o factor o' := by
  obtain ⟨t, ht, hsize⟩ := h
  rintro ⟨t', ht', hadvances⟩
  cases ht.symm.trans ht'
  cases hshape : t.shape <;> simp [hshape] at hsize hadvances

theorem Advances.unique (hc : db.Coherent) {factor factor' : Nat} {o'' : Ordinal}
    (h : db.Advances o factor o') (h' : db.Advances o factor' o'') : o' = o'' := by
  obtain ⟨t, ht, hadvances⟩ := h
  obtain ⟨t', ht', hadvances'⟩ := h'
  cases ht.symm.trans ht'
  cases hshape : t.shape with
  | const | volatile | array => simp_all
  | typedef target =>
    simp only [hshape, ← namedType?_eq_some_iff hc] at hadvances hadvances'
    exact Option.some.inj (hadvances.2.symm.trans hadvances'.2)
  | _ => simp [hshape] at hadvances

/-- No way goes on behind a type that has a size of its own. -/
theorem Way.length_le (hc : db.Coherent) {factors factors' : List Nat} {e e' : Ordinal}
    {size : Nat} (h : db.Way o factors e) (hsize : db.HasSize e size)
    (h' : db.Way o factors' e') : factors'.length ≤ factors.length := by
  induction h generalizing factors' with
  | here =>
    cases h' with
    | here => exact Nat.le_refl _
    | step hadvances => exact absurd hadvances hsize.not_advances
  | step hadvances _ ih =>
    cases h' with
    | here => exact Nat.zero_le _
    | step hadvances' hway' =>
      obtain rfl := hadvances.unique hc hadvances'
      exact Nat.succ_le_succ (ih hsize hway')

theorem Way.append {factors factors' : List Nat} {e : Ordinal} (h : db.Way o factors o')
    (h' : db.Way o' factors' e) : db.Way o (factors ++ factors') e := by
  induction h with
  | here => exact h'
  | step hadvances _ ih => exact .step hadvances (ih h')

/-- A cycle can be gone round as often as one likes. -/
theorem Way.exists_longer {round : List Nat} (h : db.Way o round o) (hround : round ≠ [])
    (n : Nat) : ∃ factors, db.Way o factors o ∧ n ≤ factors.length := by
  induction n with
  | zero => exact ⟨[], .here, Nat.le_refl _⟩
  | succ n ih =>
    obtain ⟨factors, hway, hlength⟩ := ih
    have hpos := List.length_pos_iff.mpr hround
    refine ⟨round ++ factors, h.append hway, ?_⟩
    rw [List.length_append]
    omega

theorem typeSize?_of_long (hc : db.Coherent) (hfit : db.MembersFit) {factors : List Nat}
    {e : Ordinal} (h : db.Way o factors e) (hlong : maxSizeSteps < factors.length) :
    db.typeSize? o = none := by
  refine Option.eq_none_iff_forall_ne_some.mpr fun s hs => ?_
  obtain ⟨factors', e', own, hway, hlength, hown, -⟩ := (sizeWithin_eq_some_iff hc hfit).mp hs
  have hle := hway.length_le hc hown h
  omega

end Database

open Database

/-- A type has a size just if a way of at most 32 steps leads from it to a type that has one of its
own, and the products with the factors of the way, from its end on, stay below 2 ^ 64.  A longer
way, or one that runs into a cycle, leads to none. -/
theorem typeSize?_eq_some_iff {pointerSize : UInt64} {calls : List Call} {db : Database}
    (hbuilt : db = (Host.built pointerSize calls).database) (hfit : db.MembersFit) (o : Ordinal) :
    (∀ s, db.typeSize? o = some s ↔ ∃ factors e own, db.Way o factors e ∧
      factors.length ≤ 32 ∧ db.HasSize e own ∧
      (∀ inner, inner <:+ factors → own * inner.prod < 2 ^ 64) ∧
      s.toNat = own * factors.prod) ∧
    (∀ factors e, db.Way o factors e → 32 < factors.length → db.typeSize? o = none) ∧
    ∀ before e round, db.Way o before e → db.Way e round e → round ≠ [] →
      db.typeSize? o = none := by
  have hc : db.Coherent := hbuilt ▸ Host.coherent_built pointerSize calls
  refine ⟨fun s => ?_, fun factors e hway hlong => ?_, fun before e round hway hcycle hround => ?_⟩
  · have hlength (factors : List Nat) :
        factors.length < maxSizeSteps + 1 ↔ factors.length ≤ 32 := Nat.lt_succ_iff
    simp only [typeSize?, sizeWithin_eq_some_iff hc hfit, hlength]
    exact Iff.rfl
  · exact typeSize?_of_long hc hfit hway hlong
  · obtain ⟨factors, hlong, hlength⟩ := hcycle.exists_longer hround (maxSizeSteps + 1)
    refine typeSize?_of_long hc hfit (hway.append hlong) ?_
    rw [List.length_append]
    omega

/-- Two rows of three pairs each, and two types that are made from each other. -/
def rows : List Call :=
  let triple := "pair[3]"
  let pong := "pong"
  [.addNamedType "int" (.int .w32 true false), .addStruct (some "pair") false,
    .addStructMember ⟨0⟩ ⟨"a", 0, 4, .named ⟨1⟩⟩, .addStructMember ⟨0⟩ ⟨"b", 8, 4, .named ⟨1⟩⟩,
    .addNamedType triple (.array ⟨2⟩ 3), .addNamedType "row" (.typedef triple),
    .addNamedType "row const" (.const ⟨4⟩), .addNamedType "row const[2]" (.array ⟨5⟩ 2),
    .addNamedType "ping" (.typedef pong), .addNamedType pong (.array ⟨7⟩ 2)]

/-- A pair takes twelve bytes, so two rows of three take 72.  The cycle has no size. -/
theorem typeSize?_eq_some_iff_rows :
    ∃ db, db = (Host.built 8 rows).database ∧ db.MembersFit ∧
      db.Way ⟨6⟩ [2, 1, 1, 3] ⟨2⟩ ∧ db.HasSize ⟨2⟩ 12 ∧ db.typeSize? ⟨6⟩ = some 72 ∧
      db.Way ⟨7⟩ [1, 2] ⟨7⟩ ∧ db.typeSize? ⟨7⟩ = none := by
  refine ⟨_, rfl, ?_⟩
  have hfit : (Host.built 8 rows).database.MembersFit := by decide +kernel
  generalize hbuilt : (Host.built 8 rows).database = db at hfit ⊢
  have htypes :
      let triple := "pair[3]"
      let pong := "pong"
      db.numberedType? ⟨2⟩ = some ⟨"pair", .struct ⟨0⟩⟩ ∧
      db.numberedType? ⟨3⟩ = some ⟨triple, .array ⟨2⟩ 3⟩ ∧
      db.numberedType? ⟨4⟩ = some ⟨"row", .typedef triple⟩ ∧
      db.numberedType? ⟨5⟩ = some ⟨"row const", .const ⟨4⟩⟩ ∧
      db.numberedType? ⟨6⟩ = some ⟨"row const[2]", .array ⟨5⟩ 2⟩ ∧
      db.numberedType? ⟨7⟩ = some ⟨"ping", .typedef pong⟩ ∧
      db.numberedType? ⟨8⟩ = some ⟨pong, .array ⟨7⟩ 2⟩ ∧
      (db.structDef? ⟨0⟩).map StructDef.extent = some 12 := by
    rw [← hbuilt]
    decide +kernel
  obtain ⟨h2, h3, h4, h5, h6, h7, h8, hpair⟩ := htypes
  obtain ⟨d, hd, hextent⟩ := Option.map_eq_some_iff.mp hpair
  have hway : db.Way ⟨6⟩ [2, 1, 1, 3] ⟨2⟩ :=
    .step ⟨_, h6, by decide, rfl, rfl⟩ <| .step ⟨_, h5, rfl, rfl⟩ <|
      .step ⟨_, h4, rfl, _, h3⟩ <| .step ⟨_, h3, by decide, rfl, rfl⟩ .here
  have hown : db.HasSize ⟨2⟩ 12 := ⟨_, h2, d, hd, hextent.symm⟩
  have hcycle : db.Way ⟨7⟩ [1, 2] ⟨7⟩ :=
    .step ⟨_, h7, rfl, _, h8⟩ <| .step ⟨_, h8, by decide, rfl, rfl⟩ .here
  have hsmall : ∀ inner, inner <:+ [2, 1, 1, 3] → 12 * inner.prod < 2 ^ 64 := by
    intro inner hinner
    simp only [List.suffix_cons_iff, List.suffix_nil] at hinner
    rcases hinner with rfl | rfl | rfl | rfl | rfl <;> decide
  refine ⟨hfit, hway, hown, ?_, hcycle, ?_⟩
  · exact ((typeSize?_eq_some_iff hbuilt.symm hfit ⟨6⟩).1 72).mpr
      ⟨_, _, 12, hway, by decide, hown, hsmall, by decide⟩
  · exact (typeSize?_eq_some_iff hbuilt.symm hfit ⟨7⟩).2.2 [] ⟨7⟩ _ .here hcycle (by simp)

end DebugSymbols
