import DebugSymbols.Proofs.Dwarf.Descent
import DebugSymbols.Proofs.Import.Careful
import DebugSymbols.Proofs.Import.Commands

/-!
Walks over all entries.  Whatever the session, a walk takes every entry that is reached from the
root of a readable unit off its stack once, in the order of the offsets, and after the walk of the
second phase all of them are in the cache (`visitUnits_covers`).
-/

namespace DebugSymbols

namespace Importer

/-! ## What a walk does -/

/-- Entries are taken off a stack until none is left.  Each is visited unless it was before, and
in either case it leaves its first child on the stack, and its next sibling below that. -/
inductive Pops (i : Importer) (phase : Phase) :
    List Die → Session → List Die → Session → Prop
  | done {s : Session} : Pops i phase [] s [] s
  | pop {d : Die} {stack popped : List Die} {s s' : Session} :
      Pops i phase (d.firstChild?.toList ++ (d.nextSibling?.toList ++ stack))
        ((i.visitOnce phase d).run s).2 popped s' →
      Pops i phase (d :: stack) s (d :: popped) s'

/-- One unit comes after the other.  One that cannot be read is reported and left out; of any
other the root is put on an empty stack. -/
inductive Traverses (i : Importer) (phase : Phase) :
    List DebugInfo.Slot → Session → List Die → Session → Prop
  | done {s : Session} : Traverses i phase [] s [] s
  | broken {slot : DebugInfo.Slot} {e : DebugInfo.Error} {rest : List DebugInfo.Slot}
      {popped : List Die} {s s' : Session} :
      slot.content = .error e →
      Traverses i phase rest
        ((do
          Step.warn (.brokenUnit e)
          countUnit phase fun s => { s with unitsBroken := s.unitsBroken + 1 } :
          Step Unit).run s).2 popped s' →
      Traverses i phase (slot :: rest) s popped s'
  | unit {slot : DebugInfo.Slot} {u : CompilationUnit} {root : Die}
      {rest : List DebugInfo.Slot} {first others : List Die} {s mid s' : Session} :
      slot.content = .ok u → u.die? 0 = some root →
      Pops i phase [root]
        ((countUnit phase fun s => { s with unitsOk := s.unitsOk + 1 }).run s).2 first mid →
      Traverses i phase rest mid others s' →
      Traverses i phase (slot :: rest) s (first ++ others) s'

variable {i : Importer} {phase : Phase}

theorem filterMap_toList {α β : Type} (f : α → Option β) (o : Option α) :
    o.toList.filterMap f = (o.bind f).toList := by
  cases o with
  | none => rfl
  | some a =>
    rw [Option.toList_some, Option.bind_some, List.filterMap_cons]
    cases f a <;> rfl

/-- A walk over the nodes of a unit is one over its entries. -/
theorem pops_of_unwinds {u : CompilationUnit} {stack popped : List Nat}
    (h : u.tree.Unwinds stack popped) (s : Session) :
    i.Pops phase (stack.filterMap u.die?) s (popped.filterMap u.die?)
      (((popped.filterMap u.die?).forM (i.visitOnce phase)).run s).2 := by
  induction h generalizing s with
  | done => exact .done
  | @pop k node stack popped hnode _ ih =>
    have hdie : u.die? k = some ⟨u, k, node⟩ := by rw [CompilationUnit.die?, hnode]; rfl
    rw [List.filterMap_cons_some hdie, List.filterMap_cons_some hdie]
    refine .pop ?_
    have hstack : (node.firstChild.toList ++ (node.nextSibling.toList ++ stack)).filterMap u.die? =
        (Die.firstChild? ⟨u, k, node⟩).toList ++
          ((Die.nextSibling? ⟨u, k, node⟩).toList ++ stack.filterMap u.die?) := by
      rw [List.filterMap_append, List.filterMap_append, filterMap_toList, filterMap_toList]
      rfl
    rw [← hstack]
    exact ih _

theorem pops_dies (i : Importer) (phase : Phase) {u : CompilationUnit} {low high : Nat}
    (h : u.Walkable low high) (s : Session) :
    ∃ root, u.die? 0 = some root ∧
      i.Pops phase [root] s u.dies ((u.dies.forM (i.visitOnce phase)).run s).2 := by
  obtain ⟨root, hroot⟩ := h.root
  have hpops : i.Pops phase ([0].filterMap u.die?) s u.dies _ := pops_of_unwinds h.unwinds s
  rw [List.filterMap_cons_some hroot] at hpops
  exact ⟨root, hroot, hpops⟩

theorem traverses_forM {slots : List DebugInfo.Slot}
    (h : ∀ slot ∈ slots, ∀ u, slot.content = .ok u → ∃ low high, u.Walkable low high)
    (s : Session) :
    i.Traverses phase slots s (slots.flatMap DebugInfo.Slot.dies)
      ((slots.forM (i.visitUnit phase)).run s).2 := by
  induction slots generalizing s with
  | nil => exact .done
  | cons slot rest ih =>
    have hrest := ih (fun slot' hslot' => h slot' (by simp [hslot']))
      ((i.visitUnit phase slot).run s).2
    change i.Traverses phase (slot :: rest) s _ ((rest.forM (i.visitUnit phase)).run
      ((i.visitUnit phase slot).run s).2).2
    rw [List.flatMap_cons]
    cases hcontent : slot.content with
    | error e =>
      have hdies : slot.dies = [] := by simp [DebugInfo.Slot.dies, hcontent]
      rw [hdies, List.nil_append]
      refine .broken hcontent ?_
      unfold visitUnit at hrest ⊢
      rw [hcontent] at hrest ⊢
      exact hrest
    | ok u =>
      have hdies : slot.dies = u.dies := by simp [DebugInfo.Slot.dies, hcontent]
      obtain ⟨low, high, hwalk⟩ := h slot (by simp) u hcontent
      obtain ⟨root, hroot, hpops⟩ := i.pops_dies phase hwalk
        ((countUnit phase fun s => { s with unitsOk := s.unitsOk + 1 }).run s).2
      rw [hdies]
      refine .unit hcontent hroot hpops ?_
      unfold visitUnit at hrest ⊢
      rw [hcontent] at hrest ⊢
      exact hrest

/-! ## What it leaves -/

/-- What holds after one element was gone over, and lasts, holds in the end. -/
theorem forM_establishes {α : Type} {f : α → Step PUnit} {P : Session → Prop} {l : List α} {a : α}
    (ha : a ∈ l) (hf : ∀ b, Step.Keeps Session.Within (f b))
    (hP : ∀ {s s' : Session}, s.Within s' → P s → P s')
    (h : ∀ s, P ((f a).run s).2) (s : Session) : P ((l.forM f).run s).2 := by
  induction l generalizing s with
  | nil => cases ha
  | cons b rest ih =>
    rcases List.mem_cons.mp ha with rfl | ha
    · exact hP (Step.keeps_forM hf rest _) (h s)
    · exact ih ha _

theorem has_visitPlaced (d : Die) (s : Session) :
    ((i.visitPlaced d).run s).2.cache.has d.offset = true := by
  unfold visitPlaced
  split
  · exact OffsetCache.has_markUseless _ _
  · rename_i handler _
    rw [StateT.run_bind]
    generalize (StateT.run handler.run s) = result
    obtain ⟨_ | _ | _, t⟩ := result
    · exact OffsetCache.has_markUseless _ _
    · exact OffsetCache.has_markUseless _ _
    · exact OffsetCache.has_markPlaced _ _

/-- An entry that is visited in the second phase is in the cache afterwards. -/
theorem has_visitOnce (d : Die) (s : Session) :
    ((i.visitOnce .frames d).run s).2.cache.has d.offset = true := by
  rw [run_visitOnce]
  split
  · assumption
  · exact has_visitPlaced d s

theorem has_runFrames {d : Die} (hd : d ∈ i.info.dies) (s : Session) :
    (i.runFrames.run s).2.cache.has d.offset = true := by
  obtain ⟨slot, hslot, u, hu, hmem⟩ := DebugInfo.mem_dies.mp hd
  have hlast {s s' : Session} (h : s.Within s') :
      s.cache.has d.offset = true → s'.cache.has d.offset = true := h.cache
  refine forM_establishes (Array.mem_toList_iff.mpr hslot)
    (keeps_visitUnit (keeps_visitOnce .frames)) hlast (fun s => ?_) s
  unfold visitUnit
  rw [hu]
  exact forM_establishes hmem (keeps_visitOnce .frames) hlast (has_visitOnce d) _

end Importer

open Importer

/-- A walk over all units meets the entries that are reached from the root of a unit that can be
read, each once and by ascending offsets, and goes past units that cannot be read; after the
second phase all of these entries are in the cache. -/
theorem visitUnits_covers {sections : Sections} {info : DebugInfo}
    (hdecode : DebugInfo.decode sections = .ok info)
    (hsize : sections.entries.size < UInt64.size) (config : Config) :
    (∀ phase s, (Importer.mk info config).Traverses phase info.units.toList s info.dies
      (((Importer.mk info config).visitUnits phase).run s).2) ∧
    (info.dies.Pairwise fun d d' => d.offset < d'.offset) ∧
    (∀ d, d ∈ info.dies ↔ ∃ slot ∈ info.units, ∃ u, slot.content = .ok u ∧ u.Reaches d) ∧
    ∀ s, ∀ d ∈ info.dies,
      ((Importer.mk info config).runFrames.run s).2.cache.has d.offset = true := by
  have hwalk {slot : DebugInfo.Slot} (hslot : slot ∈ info.units) {u : CompilationUnit}
      (hu : slot.content = .ok u) : ∃ low high, u.Walkable low high :=
    DebugInfo.walkable_of_decode hdecode hsize hslot hu
  refine ⟨fun phase s => ?_, DebugInfo.ascending_dies hdecode hsize, fun d => ?_,
    fun s d hd => has_runFrames hd s⟩
  · exact traverses_forM (fun slot hslot u hu => hwalk (Array.mem_toList_iff.mp hslot) hu) s
  · rw [DebugInfo.mem_dies]
    refine exists_congr fun slot => and_congr_right fun hslot => exists_congr fun u =>
      and_congr_right fun hu => ?_
    obtain ⟨low, high, h⟩ := hwalk hslot hu
    exact h.mem_dies

/-- A unit whose root has an unknown abbreviation, and behind it one with a structure `n` that has
a pointer `p` to itself. -/
def halved : Sections := .inPlace
  ⟨#[1, 17, 1, 0, 0, 2, 19, 1, 3, 8, 0, 0, 3, 13, 0, 3, 8, 73, 19, 56, 11, 0, 0, 4, 15, 0, 73, 19,
    0, 0, 0]⟩
  ⟨#[8, 0, 0, 0, 4, 0, 0, 0, 0, 0, 4, 127,
    26, 0, 0, 0, 4, 0, 0, 0, 0, 0, 4, 1, 2, 110, 0, 3, 112, 0, 24, 0, 0, 0, 0, 0, 4, 12, 0, 0, 0,
    0]⟩

/-- The root, the structure, its member and the pointer are met. -/
theorem visitUnits_covers_halved :
    ∃ info, DebugInfo.decode halved = .ok info ∧ halved.entries.size < UInt64.size ∧
      info.dies.map (·.offset) = [23, 24, 27, 36] ∧
      ∀ s, ∀ d ∈ info.dies,
        ((Importer.mk info {}).runFrames.run s).2.cache.has d.offset = true := by
  have hsize : halved.entries.size < UInt64.size := by decide
  have hrun : (DebugInfo.decode halved).toOption.any (fun info =>
      decide (info.dies.map (·.offset) = [23, 24, 27, 36])) = true := by decide +kernel
  obtain ⟨info, hdecode, hrun⟩ := Except.of_any_toOption hrun
  exact ⟨info, hdecode, hsize, of_decide_eq_true hrun,
    (visitUnits_covers hdecode hsize {}).2.2.2⟩

end DebugSymbols
