import DebugSymbols.Proofs.Enumerations
import DebugSymbols.Proofs.Import.Reliance
import DebugSymbols.Proofs.PendingRecords

/-!
Enumerations, structures and unions are registered as a whole or not at all.  Everything that can
fail is done before the first change of the host, apart from the types of members, and those that
are resolved are there (`relies_addMembers`).

Main statement: `describe_atomic`.
-/

namespace DebugSymbols

open Importer

namespace Importer

variable {i : Importer} {s : Session}

theorem ComesTo.reliable {pointerSize : UInt64} {calls : List Call}
    (h : i.ComesTo (newSession (Host.built pointerSize calls)) s) : s.Reliable := by
  obtain ⟨τ, htrace, rfl⟩ := h
  have hstart : i.Idle ⟨newSession (Host.built pointerSize calls), []⟩ :=
    idle_start pointerSize calls
  have hsound := Trace.sound hstart.sound htrace
  refine ⟨hsound.coherent, hsound.accepts, fun hd => ?_, fun htype => ?_⟩
  · exact ((Trace.retains hstart.sound htrace).distinct hd).elim Host.nodup_built id
  · obtain ⟨d, -, t, ht, -⟩ := hsound.types htype
    exact ⟨t, ht⟩

end Importer

/-- In whatever state a session is, the handler of an enumeration, structure or union that fails
leaves the host as it was.  That of an enumeration which is no declaration comes to one that is
known to have just the constants of the entry, or to a new one. -/
theorem describe_atomic {info : DebugInfo} {config : Config} {pointerSize : UInt64}
    {calls : List Call} {s : Session}
    (hs : (Importer.mk info config).ComesTo (newSession (Host.built pointerSize calls)) s)
    (levels : Nat) {d : Die} (htag : d.tag.isRecord = true ∨ d.tag = .enumerationType) :
    let i : Importer := ⟨info, config⟩
    let handler : Attempt Outcome := i.describe (i.resolveWith (i.resolveDie levels)) d
    (∀ e t, handler.run.run s = (.error e, t) → t.host = s.host) ∧
      (d.tag = .enumerationType → d.isDeclaration = .ok false →
        ∀ out t, handler.run.run s = (.ok out, t) → Enumerated s d out t) := by
  intro i handler
  have hreliable : s.Reliable := hs.reliable
  rcases htag with htag | htag
  · have hhandler : handler = i.recordType (i.resolveWith (i.resolveDie levels)) d := by
      rcases isRecord_iff.mp htag with h | h <;> simp only [handler, describe, h]
    refine ⟨fun e t hrun => ?_, fun henum => ?_⟩
    · rw [hhandler] at hrun
      exact (makes_recordType (reliably_resolveWith (dependable_resolveDie levels)) hreliable
        d).of_error hrun
    · rw [henum] at htag
      cases htag
  · have hhandler : handler = i.enumType d := by simp only [handler, describe, htag]
    rw [hhandler]
    refine ⟨fun e t => (relies_enumType hreliable d).of_error, fun _ hdefinition out t hrun => ?_⟩
    exact ((relies_enumType hreliable d).of_ok hrun).2 hdefinition

/-- An enumeration `e` of three bytes with `A = 0`, `B = 1` and `A = 5`, and an enumeration `m` of
`A = 0` and of `B`, which has no value. -/
def malformed : Sections := .inPlace
  ⟨#[1, 17, 1, 0, 0, 2, 4, 1, 3, 8, 11, 11, 0, 0, 3, 40, 0, 3, 8, 28, 11, 0, 0, 4, 40, 0, 3, 8, 0,
    0, 0]⟩
  ⟨#[38, 0, 0, 0, 4, 0, 0, 0, 0, 0, 4, 1, 2, 101, 0, 3, 3, 65, 0, 0, 3, 66, 0, 1, 3, 65, 0, 5, 0, 2,
    109, 0, 4, 3, 65, 0, 0, 4, 66, 0, 0, 0]⟩

/-- The first, at offset 12, completes the type `e`, and the second, at offset 29, fails. -/
theorem describe_atomic_malformed :
    ∃ info d d', DebugInfo.decode malformed = .ok info ∧ info.dieAt 12 = .ok d ∧
      info.dieAt 29 = .ok d' ∧
      let i : Importer := ⟨info, {}⟩
      let s := newSession (Host.built 4 [.addNamedType "e" .incomplete])
      let handler (d : Die) : Attempt Outcome := i.describe (i.resolveWith (i.resolveDie 3)) d
      i.ComesTo s s ∧ d.tag = .enumerationType ∧ d'.tag = .enumerationType ∧
        (∃ t, (handler d).run.run s = (.ok (settled ⟨1⟩), t) ∧ Enumerated s d (settled ⟨1⟩) t ∧
          t.host.database.enumDef? ⟨0⟩ = some ⟨"e", 4, ⟨1⟩, [("A", 0), ("B", 1)]⟩) ∧
        ∃ e t, (handler d').run.run s = (.error e, t) ∧ t.host = s.host := by
  have hsize : malformed.entries.size < UInt64.size := by decide
  have hrun : (DebugInfo.decode malformed).toOption.any (fun info =>
      (info.dieAt 12).toOption.any fun d => (info.dieAt 29).toOption.any fun d' =>
        let i : Importer := ⟨info, {}⟩
        let s := newSession (Host.built 4 [.addNamedType "e" .incomplete])
        let handler (d : Die) : Attempt Outcome := i.describe (i.resolveWith (i.resolveDie 3)) d
        decide (d.tag = .enumerationType ∧ d'.tag = .enumerationType ∧
          d.isDeclaration.toOption = some false ∧
          ((handler d).run.run s).1.toOption = some (settled ⟨1⟩) ∧
          ((handler d).run.run s).2.host.database.enumDef? ⟨0⟩ =
            some ⟨"e", 4, ⟨1⟩, [("A", 0), ("B", 1)]⟩ ∧
          ((handler d').run.run s).1.toOption = none)) = true := by
    decide +kernel
  obtain ⟨info, hdecode, hrun⟩ := Except.of_any_toOption hrun
  obtain ⟨d, hat, hrun⟩ := Except.of_any_toOption hrun
  obtain ⟨d', hat', hrun⟩ := Except.of_any_toOption hrun
  obtain ⟨htag, htag', hdefinition, hok, hget, herror⟩ := of_decide_eq_true hrun
  let i : Importer := ⟨info, {}⟩
  let s := newSession (Host.built 4 [.addNamedType "e" .incomplete])
  let handler (d : Die) : Attempt Outcome := i.describe (i.resolveWith (i.resolveDie 3)) d
  have hreaches : i.ComesTo s s :=
    comesTo_performAll (DebugInfo.indexed_of_decode hdecode hsize) 4 [.addNamedType "e" .incomplete]
      []
  have hsucceeds : (handler d).run.run s = (.ok (settled ⟨1⟩), ((handler d).run.run s).2) :=
    Prod.ext (Except.eq_ok_of_toOption hok) rfl
  have hfails : ∃ e, (handler d').run.run s = (.error e, ((handler d').run.run s).2) := by
    cases hresult : ((handler d').run.run s).1 with
    | ok out => simp [handler, i, s, hresult, Except.toOption] at herror
    | error e => exact ⟨e, Prod.ext hresult rfl⟩
  obtain ⟨e, hfails⟩ := hfails
  refine ⟨info, d, d', hdecode, hat, hat', hreaches, htag, htag', ⟨_, hsucceeds, ?_, hget⟩, e, _,
    hfails, ?_⟩
  · exact (describe_atomic hreaches 3 (.inr htag)).2 htag (Except.eq_ok_of_toOption hdefinition) _ _
      hsucceeds
  · exact (describe_atomic hreaches 3 (.inr htag')).1 _ _ hfails

end DebugSymbols
