import DebugSymbols.Proofs.Dwarf.Descent
import DebugSymbols.Proofs.Import.Commands

/-!
Types that are put off.  Only a type that is made from another one is ever put off, and what is
still missing after all types were visited is made from itself: following what it is made from
leads into a circle (`cached_or_circular`).
-/

namespace DebugSymbols

/-! ## Attempts that succeed -/

namespace Attempt

/-- What the attempt yields, if it succeeds, is of a kind. -/
def Yields (P : α → Prop) (m : Attempt α) : Prop := ∀ s a, (m.run.run s).1 = .ok a → P a

variable {P : α → Prop}

theorem yields_pure {a : α} (h : P a) : Yields P (pure a) := by
  intro s b hb
  cases hb
  exact h

theorem yields_bind {β : Type} {m : Attempt β} {f : β → Attempt α} (h : ∀ b, Yields P (f b)) :
    Yields P (m >>= f) := by
  intro s a ha
  rw [ExceptT.run_bind, StateT.run_bind] at ha
  generalize m.run.run s = result at ha
  obtain ⟨e | b, t⟩ := result
  · cases ha
  · exact h b t a ha

theorem yields_map {β : Type} {m : Attempt β} {f : β → α} (h : ∀ b, P (f b)) :
    Yields P (f <$> m) := by
  rw [map_eq_pure_bind]
  exact yields_bind fun b => yields_pure (h b)

end Attempt

namespace Importer

open Attempt

variable {i : Importer} {d : Die}

/-! ## Types that are not put off -/

/-- The handler does not put its entry off. -/
abbrev Decides (m : Attempt Outcome) : Prop := Yields (· ≠ .deferred) m

theorem decides_settled (m : Attempt Ordinal) : Decides (settled <$> m) := yields_map fun _ => nofun

theorem decides_baseType (d : Die) : Decides (i.baseType d) := by
  refine yields_bind fun name => yields_bind fun size => yields_bind fun encoding => ?_
  split
  · exact yields_pure nofun
  · split
    · exact yields_bind fun _ => decides_settled _
    · exact decides_settled _

theorem decides_unspecifiedType (d : Die) : Decides (i.unspecifiedType d) :=
  yields_bind fun _ => decides_settled _

theorem decides_declaredType (d : Die) : Decides (i.declaredType d) := by
  refine yields_bind fun name => yields_bind fun s => ?_
  dsimp only
  split
  · exact yields_pure nofun
  · exact decides_settled _

theorem decides_enumType (d : Die) : Decides (i.enumType d) := by
  refine yields_bind fun _ => yields_bind fun declared => ?_
  split
  · exact decides_declaredType d
  · refine yields_bind fun width => yields_bind fun constants => yields_bind fun (id, existed) => ?_
    cases existed with
    | false => exact yields_bind fun _ => yields_bind fun _ => decides_settled _
    | true => exact decides_settled _

theorem decides_recordType (resolve : Resolver) (d : Die) : Decides (i.recordType resolve d) := by
  refine yields_bind fun declared => ?_
  split
  · exact decides_declaredType d
  · refine yields_bind fun layout => yields_bind fun found => yields_bind fun ordinal => ?_
    split
    · exact yields_pure nofun
    · exact yields_bind fun complete => yields_pure nofun

theorem decides_describe (resolve : Resolver) (htag : d.tag.isModifier = false) :
    Decides (i.describe resolve d) := by
  unfold describe
  split
  · exact decides_baseType d
  · exact decides_unspecifiedType d
  · exact decides_enumType d
  · simp_all [Tag.isModifier]
  · simp_all [Tag.isModifier]
  · simp_all [Tag.isModifier]
  · simp_all [Tag.isModifier]
  · simp_all [Tag.isModifier]
  · exact decides_recordType resolve d
  · exact decides_recordType resolve d
  · simp_all [Tag.isModifier]
  · refine yields_pure fun h => ?_
    cases h

theorem outcomeOf_handle_ne_deferred (htag : d.tag.isModifier = false) (levels : Nat)
    (s : Session) :
    outcomeOf ((i.handle levels d).run s).1 ≠ .deferred := by
  cases levels with
  | zero => exact nofun
  | succ levels =>
    have hdecides := decides_describe (i := i) (i.resolveWith (i.resolveDie levels)) htag s
    change outcomeOf ((i.describe (i.resolveWith (i.resolveDie levels)) d).run.run s).1 ≠ _
    generalize ((i.describe (i.resolveWith (i.resolveDie levels)) d).run.run s).1 = result
      at hdecides
    cases result with
    | error e => exact nofun
    | ok out => exact hdecides out rfl

/-- An entry that is not being resolved is put off only if its type is made from another one. -/
theorem resolveDie_ne_deferred (htag : d.tag.isModifier = false) (levels : Nat) {s : Session}
    (hmem : d.offset ∉ s.resolving) : ((i.resolveDie levels d).run s).1 ≠ .deferred := by
  cases hget : s.cache.get? d.offset with
  | none =>
    rw [run_resolveDie hget hmem, StateT.run_bind]
    have hhandle := outcomeOf_handle_ne_deferred (i := i) htag levels (entered s d.offset)
    generalize (i.handle levels d).run (entered s d.offset) = handled at hhandle
    obtain ⟨result, t⟩ := handled
    obtain ⟨stats, warnings, hrun⟩ := run_leave d.offset result t
    change ((leave d.offset result).run t).1 ≠ _
    rw [hrun]
    exact hhandle
  | some cl =>
    unfold resolveDie
    rw [StateT.run_bind, StateT.run_get, pure_bind]
    simp only [hget]
    intro h
    cases cl <;> cases h

/-! ## Circles -/

/-- The type at the first offset is made from the one at the second. -/
def Follows (i : Importer) (x y : UInt64) : Prop := ∃ d, i.info.dieAt x = .ok d ∧ d.Modifies y

/-- Following what types are made from leads into a circle. -/
def Circular (i : Importer) (x : UInt64) : Prop :=
  ∃ z, Relation.ReflTransGen i.Follows x z ∧ Relation.TransGen i.Follows z z

theorem Circular.head {x y : UInt64} (hxy : i.Follows x y) (h : i.Circular y) : i.Circular x := by
  obtain ⟨z, hyz, hz⟩ := h
  exact ⟨z, .head hxy hyz, hz⟩

/-- What a type is made from leads to a type that is being resolved, or into a circle. -/
theorem Awaits.reaches_or_circular {resolving : List UInt64} {x : UInt64}
    (h : i.Awaits resolving x) :
    (∃ z ∈ resolving, Relation.ReflTransGen i.Follows x z) ∨ i.Circular x := by
  induction h with
  | here hx => exact .inl ⟨_, hx, .refl⟩
  | @there resolving x y d hat hmodifies _ ih =>
    have hxy : i.Follows x y := ⟨d, hat, hmodifies⟩
    rcases ih with ⟨z, hz, hyz⟩ | hcircular
    · rcases List.mem_cons.mp hz with rfl | hz
      · exact .inr ⟨z, .refl, .head' hxy hyz⟩
      · exact .inl ⟨z, hz, .head hxy hyz⟩
    · exact .inr (hcircular.head hxy)

theorem Awaits.circular {x : UInt64} (h : i.Awaits [] x) : i.Circular x :=
  h.reaches_or_circular.resolve_left nofun

end Importer

open Importer

/-- An entry whose type is not made from another one, such as a structure, an enumeration or a base
type, is never put off unless it is being resolved; and after all types were visited in a new
session, a type that is reached from the root of its unit is in the cache, unless what it is made
from leads into a circle. -/
theorem cached_or_circular {sections : Sections} {info : DebugInfo}
    (hdecode : DebugInfo.decode sections = .ok info)
    (hsize : sections.entries.size < UInt64.size) (config : Config) :
    (∀ s levels d, d.tag.isModifier = false → d.offset ∉ s.resolving →
      (((Importer.mk info config).resolveDie levels d).run s).1 ≠ .deferred) ∧
    ∀ pointerSize calls, ∀ slot ∈ info.units, ∀ u, slot.content = .ok u → ∀ d, u.Reaches d →
      d.tag.isType = true →
      ((Importer.mk info config).runTypes.run
        (newSession (Host.built pointerSize calls))).2.cache.has d.offset = true ∨
      (Importer.mk info config).Circular d.offset := by
  refine ⟨fun s levels d htag hmem => resolveDie_ne_deferred htag levels hmem, ?_⟩
  intro pointerSize calls slot hslot u hu d hreach htype
  have hi := DebugInfo.indexed_of_decode hdecode hsize
  have hstart : (Importer.mk info config).Idle ⟨newSession (Host.built pointerSize calls), []⟩ :=
    idle_start pointerSize calls
  obtain ⟨low, high, hwalk⟩ := DebugInfo.walkable_of_decode hdecode hsize hslot hu
  have hroots (x : UInt64) : walking.roots x := trivial
  obtain ⟨τ, -, hτ, -, hvisited⟩ :=
    trace_of_tracks hstart (tracks_visitUnits hi .types (fun _ => hroots) hstart)
  have hseen := hvisited d ⟨slot, hslot, u, hu, hwalk.mem_dies.mpr hreach⟩ htype
  rw [hτ] at hseen
  exact hseen.imp_right Awaits.circular

/-- A qualified type and a pointer that are made from each other, and a structure `n` with a pointer
`p` to itself. -/
def ringed : Sections := .inPlace
  ⟨#[1, 17, 1, 0, 0, 2, 19, 1, 3, 8, 0, 0, 3, 13, 0, 3, 8, 73, 19, 56, 11, 0, 0, 4, 15, 0, 73, 19,
    0, 0, 5, 38, 0, 73, 19, 0, 0, 0]⟩
  ⟨#[36, 0, 0, 0, 4, 0, 0, 0, 0, 0, 4, 1, 5, 17, 0, 0, 0, 4, 12, 0, 0, 0, 2, 110, 0, 3, 112, 0,
    34, 0, 0, 0, 0, 0, 4, 22, 0, 0, 0, 0]⟩

/-- The qualified type is left out, as it is made from itself. -/
theorem cached_or_circular_ringed :
    ∃ (info : DebugInfo) (d : Die), DebugInfo.decode ringed = .ok info ∧
      ringed.entries.size < UInt64.size ∧ d.tag = .constType ∧
      ((Importer.mk info {}).runTypes.run
        (newSession (Host.built 4 []))).2.cache.has d.offset = false ∧
      (Importer.mk info {}).Circular d.offset := by
  have hsize : ringed.entries.size < UInt64.size := by decide
  have hrun : (DebugInfo.decode ringed).toOption.any (fun info =>
      info.dies.any fun d => decide (d.tag = .constType ∧
        ((Importer.mk info {}).runTypes.run
          (newSession (Host.built 4 []))).2.cache.has d.offset = false)) = true := by
    decide +kernel
  obtain ⟨info, hdecode, hrun⟩ := Except.of_any_toOption hrun
  obtain ⟨d, hd, hrun⟩ := List.any_eq_true.mp hrun
  obtain ⟨htag, hhas⟩ := of_decide_eq_true hrun
  obtain ⟨slot, hslot, u, hu, hmem⟩ := DebugInfo.mem_dies.mp hd
  obtain ⟨low, high, hwalk⟩ := DebugInfo.walkable_of_decode hdecode hsize hslot hu
  have htype : d.tag.isType = true := by
    rw [htag]
    rfl
  refine ⟨info, d, hdecode, hsize, htag, hhas, ?_⟩
  refine ((cached_or_circular hdecode hsize {}).2 4 [] slot hslot u hu d
    (hwalk.mem_dies.mp hmem) htype).resolve_left ?_
  rw [hhas]
  exact Bool.false_ne_true

end DebugSymbols
