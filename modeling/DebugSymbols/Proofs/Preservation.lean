import DebugSymbols.Proofs.Import.Careful
import DebugSymbols.Proofs.TypeGraph

/-!
What a database held before an import it holds afterwards.  Whatever a session is told to do, it
completes incomplete types and adds types and variables, but gives neither constants nor members to
enumerations and structures that it has not made itself (`intact_performAll`).
-/

namespace DebugSymbols

/-- The second database is the first one with more in it.  Types keep their names and, unless they
were incomplete, their shapes; definitions do not change at all. -/
structure Database.Intact (db db' : Database) : Prop where
  types : ∀ {o t}, db.numberedType? o = some t → ∃ t', db'.numberedType? o = some t' ∧ t.Becomes t'
  enums : ∀ {id d}, db.enumDef? id = some d → db'.enumDef? id = some d
  structs : ∀ {id d}, db.structDef? id = some d → db'.structDef? id = some d
  stack : ∀ f, db.stackVariablesOf f <+: db'.stackVariablesOf f
  registers : ∀ f, db.registerVariablesOf f <+: db'.registerVariablesOf f

namespace Importer

variable {i : Importer} {scope : Scope} {σ τ : History}

/-! ## Structures -/

/-- The structures of a database are as they were, as all that were made since come behind them. -/
structure Spares (db : Database) (σ : History) : Prop where
  size : db.structs.size ≤ σ.session.host.database.structs.size
  structs : ∀ {id d}, db.structDef? id = some d → σ.session.host.database.structDef? id = some d
  makers : ∀ {x id}, (x, id) ∈ σ.makers → db.structs.size ≤ id.val

theorem spares_start (s : Session) : Spares s.host.database ⟨s, []⟩ :=
  ⟨Nat.le_refl _, id, nofun⟩

theorem structDef?_lt {db : Database} {id : StructId} {d : StructDef}
    (h : db.structDef? id = some d) : id.val < db.structs.size :=
  (Array.getElem?_eq_some_iff.mp h).1

theorem Spares.create {db : Database} (hs : i.Sound σ) (h : Spares db σ) {d : Die}
    {id : StructId} {host : Host} (hcreate : i.Creates σ.session d id host) :
    Spares db ⟨{ σ.session with host }, (d.offset, id) :: σ.makers⟩ := by
  obtain ⟨name, hadd, -⟩ := hcreate.added
  obtain ⟨db', hdb, rfl⟩ := Host.addStruct?_eq_some hadd
  obtain ⟨def_, hadds⟩ := Database.addsStruct hs.coherent hdb
  have hsize := h.size
  have hid : id.val = σ.session.host.database.structs.size := by rw [hadds.id]
  refine ⟨?_, fun {id' d'} hd => ?_, fun {x id'} hmem => ?_⟩
  · rw [hadds.structs, Array.size_push]
    omega
  · have hlt := structDef?_lt hd
    have hne : id' ≠ id := by
      rintro rfl
      omega
    rw [hadds.structDef?, if_neg hne]
    exact h.structs hd
  · rcases List.mem_cons.mp hmem with heq | hmem
    · cases heq
      omega
    · exact h.makers hmem

theorem Spares.attach {db : Database} (h : Spares db σ) {d : Die} {id : StructId} {m : Member}
    {host : Host} (hattach : i.Attaches σ d id m host) :
    Spares db { σ with session := { σ.session with host } } := by
  obtain ⟨db', hdb, rfl⟩ := Host.addStructMember?_eq_some hattach.added
  obtain ⟨def_, hadds⟩ := Database.addsMember hdb
  have hmade := h.makers hattach.made
  refine ⟨?_, fun {id' d'} hd => ?_, h.makers⟩
  · rw [hadds.eq, Array.size_modify]
    exact h.size
  · have hlt := structDef?_lt hd
    have hne : id' ≠ id := by
      rintro rfl
      omega
    rw [hadds.structDef?, if_neg hne]
    exact h.structs hd

theorem Change.spares {db : Database} (hs : i.Sound σ) (hc : i.Change scope σ τ)
    (h : Spares db σ) : Spares db τ := by
  cases hc with
  | note | dismiss | place | enter | leave | clear => exact ⟨h.size, h.structs, h.makers⟩
  | grow hgrows =>
    have hstructs := hgrows.structs
    refine ⟨?_, fun hd => ?_, h.makers⟩
    · rw [hstructs]
      exact h.size
    · rw [Database.structDef?, hstructs]
      exact h.structs hd
  | create _ _ hcreate => exact h.create hs hcreate
  | attach _ hattach => exact h.attach hattach

theorem Trace.spares {db : Database} (hs : i.Sound σ) (ht : i.Trace scope σ τ)
    (h : Spares db σ) : Spares db τ := by
  induction ht with
  | refl => exact h
  | tail ht hc ih => exact Change.spares (Trace.sound hs ht) hc ih

/-! ## Enumerations and variables -/

theorem within_performAll (commands : List Command) (s : Session) :
    s.Within (i.performAll commands s) :=
  keeps_performAll commands s

end Importer

open Importer

/-- Whatever a session over a database is told to do, the database is still there in the end. -/
theorem intact_performAll {sections : Sections} {info : DebugInfo}
    (hdecode : DebugInfo.decode sections = .ok info)
    (hsize : sections.entries.size < UInt64.size) (config : Config) (pointerSize : UInt64)
    (calls : List Call) (commands : List Command) :
    (Host.built pointerSize calls).database.Intact
      ((Importer.mk info config).performAll commands
        (newSession (Host.built pointerSize calls))).host.database := by
  have hi := DebugInfo.indexed_of_decode hdecode hsize
  have hstart : (Importer.mk info config).Idle ⟨newSession (Host.built pointerSize calls), []⟩ :=
    idle_start pointerSize calls
  obtain ⟨τ, htrace, hτ, -⟩ := trace_performAll hi hstart commands
  have hwithin := (within_performAll (i := ⟨info, config⟩) commands
    (newSession (Host.built pointerSize calls))).host
  have hspares := Trace.spares hstart.sound htrace (spares_start _)
  have hextends := (Trace.extends hstart.sound htrace).host.database
  rw [hτ] at hextends
  refine ⟨hextends.types, hwithin.enums, fun hd => ?_, hwithin.stack, hwithin.registers⟩
  rw [← hτ]
  exact hspares.structs hd

/-- A database with an incomplete type `n`, an enumeration, a structure and a variable. -/
def furnished : List Call :=
  [.addNamedType "n" .incomplete, .addEnum (some "e") 4, .addEnumConstant ⟨0⟩ "a" 1,
    .addStruct (some "s") false, .addStructMember ⟨0⟩ ⟨"m", 0, 4, .enum ⟨0⟩⟩,
    .addFunction ⟨16, 64⟩, .addStackVariable 16 ⟨"v", 8, 4, some (.enum ⟨0⟩)⟩]

/-- The incomplete type is completed, and gets its members. -/
theorem intact_performAll_furnished :
    ∃ info, DebugInfo.decode linked = .ok info ∧ linked.entries.size < UInt64.size ∧
      ((Importer.mk info {}).performAll [.runTypes, .runSecondPass, .runFrames]
        (newSession (Host.built 4 furnished))).host.database.numberedType? ⟨1⟩ =
          some ⟨"n", .struct ⟨1⟩⟩ ∧
      (Host.built 4 furnished).database.Intact
        ((Importer.mk info {}).performAll [.runTypes, .runSecondPass, .runFrames]
          (newSession (Host.built 4 furnished))).host.database := by
  have hsize : linked.entries.size < UInt64.size := by decide
  have hrun : (DebugInfo.decode linked).toOption.any (fun info =>
      decide (((Importer.mk info {}).performAll [.runTypes, .runSecondPass, .runFrames]
        (newSession (Host.built 4 furnished))).host.database.numberedType? ⟨1⟩ =
          some ⟨"n", .struct ⟨1⟩⟩)) = true := by decide +kernel
  obtain ⟨info, hdecode, hrun⟩ := Except.of_any_toOption hrun
  exact ⟨info, hdecode, hsize, of_decide_eq_true hrun,
    intact_performAll hdecode hsize {} 4 furnished [.runTypes, .runSecondPass, .runFrames]⟩

end DebugSymbols
