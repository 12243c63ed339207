import DebugSymbols.Proofs.Import.Commands

/-!
The cache tells the truth about types.  Whatever was done in a session, an entry that the cache
calls a type has the type in the database that it is translated to (`Session.Denotes`), and
keeps it, whatever is done later.
-/

namespace DebugSymbols

open Importer

/-- Whenever the cache calls an entry a type, the database has the translation of the entry under
that ordinal, then and ever after. -/
theorem denotes_of_typeAt {sections : Sections} {info : DebugInfo}
    (hdecode : DebugInfo.decode sections = .ok info)
    (hsize : sections.entries.size < UInt64.size) (config : Config) (pointerSize : UInt64)
    (calls : List Call) (commands later : List Command) {d : Die} (hd : info.Holds d)
    {o : Ordinal}
    (htype : ((Importer.mk info config).performAll commands
      (newSession (Host.built pointerSize calls))).TypeAt d.offset o) :
    ((Importer.mk info config).performAll (commands ++ later)
        (newSession (Host.built pointerSize calls))).TypeAt d.offset o ∧
      ((Importer.mk info config).performAll (commands ++ later)
        (newSession (Host.built pointerSize calls))).Denotes d o := by
  have hi := DebugInfo.indexed_of_decode hdecode hsize
  have hstart : (Importer.mk info config).Idle ⟨newSession (Host.built pointerSize calls), []⟩ :=
    idle_start pointerSize calls
  obtain ⟨σ, -, hσ, hidle⟩ := trace_performAll hi hstart commands
  obtain ⟨τ, htrace, hτ, hidle'⟩ := trace_performAll hi hidle later
  rw [performAll_append, ← hσ, ← hτ]
  rw [← hσ] at htype
  have hlater := (Trace.extends hidle.sound htrace).types htype
  obtain ⟨d', hat, hdenotes⟩ := hidle'.sound.types hlater
  rw [hi.dieAt_of_holds hd] at hat
  cases hat
  exact ⟨hlater, hdenotes⟩

/-- A structure `n` with a pointer `p` to itself, and that pointer type with a qualifier:
`const struct n *`. -/
def linked : Sections := .inPlace
  ⟨#[1, 17, 1, 0, 0, 2, 19, 1, 3, 8, 0, 0, 3, 13, 0, 3, 8, 73, 19, 56, 11, 0, 0, 4, 15, 0, 73, 19,
    0, 0, 5, 38, 0, 73, 19, 0, 0, 0]⟩
  ⟨#[31, 0, 0, 0, 4, 0, 0, 0, 0, 0, 4, 1, 2, 110, 0, 3, 112, 0, 24, 0, 0, 0, 0, 0, 4, 12, 0, 0, 0,
    5, 24, 0, 0, 0, 0]⟩

/-- The qualified type, at offset 29, is the third one. -/
theorem denotes_of_typeAt_linked :
    ∃ info d, DebugInfo.decode linked = .ok info ∧ info.Holds d ∧
      linked.entries.size < UInt64.size ∧
      ((Importer.mk info {}).performAll [.runTypes]
        (newSession (Host.built 4 []))).TypeAt d.offset ⟨3⟩ ∧
      ((Importer.mk info {}).performAll ([.runTypes] ++ [.runSecondPass, .runFrames])
        (newSession (Host.built 4 []))).Denotes d ⟨3⟩ := by
  have hsize : linked.entries.size < UInt64.size := by decide
  have hrun : (DebugInfo.decode linked).toOption.any (fun info =>
      (info.dieAt 29).toOption.any fun d =>
        decide (((Importer.mk info {}).performAll [.runTypes]
          (newSession (Host.built 4 []))).cache.type? d.offset = some (⟨3⟩, false))) = true := by
    decide +kernel
  obtain ⟨info, hdecode, hrun⟩ := Except.of_any_toOption hrun
  obtain ⟨d, hdie, hrun⟩ := Except.of_any_toOption hrun
  have htype := of_decide_eq_true hrun
  have hholds := DebugInfo.holds_of_dieAt hdie
  exact ⟨info, d, hdecode, hholds, hsize, ⟨false, htype⟩,
    (denotes_of_typeAt hdecode hsize {} 4 [] [.runTypes] [.runSecondPass, .runFrames] hholds
      ⟨false, htype⟩).2⟩

end DebugSymbols
