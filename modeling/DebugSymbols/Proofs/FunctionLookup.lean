import DebugSymbols.Proofs.Database.Effects
import DebugSymbols.Proofs.SortedMap

/-!
Functions by the addresses in them.  Only the function with the nearest start below an address is
looked at, so that a range which reaches further is missed; where no two functions share an address
(`Separate`), the look-up finds what going over all of them does.

Main statement: `functionAt?_built`.
-/

namespace DebugSymbols

/-! ## The functions that count -/

/-- The function that was added last of those with some start.  It takes the place of the others. -/
def lastFrom? (ranges : List AddressRange) (start : UInt64) : Option AddressRange :=
  (ranges.filter (·.start = start)).getLast?

/-- No function with the same start was added later. -/
def Stands (ranges : List AddressRange) (f : AddressRange) : Prop :=
  lastFrom? ranges f.start = some f

instance (ranges : List AddressRange) (f : AddressRange) : Decidable (Stands ranges f) :=
  inferInstanceAs (Decidable (_ = _))

/-- No function that counts is without an address, and no two of them share one. -/
structure Separate (ranges : List AddressRange) : Prop where
  nonempty : ∀ f ∈ ranges, Stands ranges f → f.start < f.stop
  disjoint : ∀ f ∈ ranges, ∀ g ∈ ranges, Stands ranges f → Stands ranges g → f ≠ g →
    ∀ a ∈ f, a ∉ g

variable {ranges : List AddressRange} {f g : AddressRange} {a : UInt64}

theorem of_lastFrom? {start : UInt64} (h : lastFrom? ranges start = some f) :
    f ∈ ranges ∧ f.start = start :=
  (List.mem_filter.mp (List.mem_of_getLast? h)).imp_right of_decide_eq_true

theorem Stands.mem (h : Stands ranges f) : f ∈ ranges := (of_lastFrom? h).1

/-- One of the functions with some start counts. -/
theorem exists_stands (hg : g ∈ ranges) : ∃ f, Stands ranges f ∧ f.start = g.start := by
  have hne : ranges.filter (·.start = g.start) ≠ [] :=
    List.ne_nil_of_mem (List.mem_filter.mpr ⟨hg, decide_eq_true rfl⟩)
  have hlast : lastFrom? ranges g.start = some _ := List.getLast?_eq_some_getLast hne
  obtain ⟨-, hstart⟩ := of_lastFrom? hlast
  refine ⟨_, ?_, hstart⟩
  rw [Stands, hstart]
  exact hlast

namespace Separate

theorem eq_of_mem (h : Separate ranges) (hf : Stands ranges f) (hg : Stands ranges g)
    (haf : a ∈ f) (hag : a ∈ g) : f = g := by
  by_contra hne
  exact h.disjoint f hf.mem g hg.mem hf hg hne a haf hag

/-- No function starts between the start of the one that has the address and the address. -/
theorem start_le (h : Separate ranges) (hf : Stands ranges f) (ha : a ∈ f) (hg : g ∈ ranges)
    (hle : g.start ≤ a) : g.start ≤ f.start := by
  obtain ⟨other, hother, hstart⟩ := exists_stands hg
  rw [← hstart] at hle ⊢
  by_contra hgt
  have hlt : f.start < other.start := UInt64.not_le.mp hgt
  have hown : other.start ∈ other := ⟨UInt64.le_refl _, h.nonempty other hother.mem hother⟩
  have hshared : other.start ∈ f := ⟨UInt64.le_of_lt hlt, UInt64.lt_of_le_of_lt hle ha.2⟩
  have hsame := h.eq_of_mem hf hother hshared hown
  exact UInt64.lt_irrefl _ (hsame ▸ hlt)

end Separate

/-! ## What calls leave -/

/-- The functions that calls add, in their order. -/
def addedFunctions (calls : List Call) : List AddressRange :=
  calls.filterMap fun
    | .addFunction range => some range
    | _ => none

/-- Where the function that counts ends, of those with some start. -/
def lastStop? (ranges : List AddressRange) (start : UInt64) : Option UInt64 :=
  (lastFrom? ranges start).map (·.stop)

theorem lastStop?_append (ranges later : List AddressRange) (start : UInt64) :
    lastStop? (ranges ++ later) start = (lastStop? later start).or (lastStop? ranges start) := by
  simp only [lastStop?, lastFrom?, List.filter_append, List.getLast?_append, Option.map_or]

theorem lastStop?_eq_some {start stop : UInt64} :
    lastStop? ranges start = some stop ↔ Stands ranges ⟨start, stop⟩ := by
  constructor
  · intro h
    obtain ⟨f, hf, rfl⟩ := Option.map_eq_some_iff.mp h
    obtain ⟨-, rfl⟩ := of_lastFrom? hf
    exact hf
  · intro h
    rw [lastStop?, show lastFrom? ranges start = some ⟨start, stop⟩ from h]
    rfl

namespace Host

variable {h : Host}

/-- A call adds its own function at most. -/
theorem get?_functions_perform (hc : h.database.Coherent) (c : Call) (start : UInt64) :
    (h.perform c).2.database.functions.get? start =
      (lastStop? (addedFunctions [c]) start).or (h.database.functions.get? start) := by
  by_cases hadds : ∃ stop, c = .addFunction ⟨start, stop⟩
  · obtain ⟨stop, rfl⟩ := hadds
    have hlast : lastStop? (addedFunctions [.addFunction ⟨start, stop⟩]) start = some stop :=
      lastStop?_eq_some.mpr (by simp [Stands, lastFrom?, addedFunctions])
    rw [hlast]
    exact SortedMap.get?_insert_self _ _ _
  · have hnone : lastStop? (addedFunctions [c]) start = none := by
      refine Option.eq_none_iff_forall_ne_some.mpr fun stop hstop => hadds ⟨stop, ?_⟩
      have hmem := (lastStop?_eq_some.mp hstop).mem
      obtain ⟨c', hc', heq⟩ := List.mem_filterMap.mp hmem
      rw [List.mem_singleton.mp hc'] at heq
      cases c <;> cases heq
      rfl
    rw [hnone, Option.none_or]
    have heffect := effect_perform hc c
    generalize (h.perform c).2 = h' at heffect ⊢
    cases heffect with
    | failed => rfl
    | done _ _ hcarried =>
      exact hcarried.program.functions start fun stop hstop => hadds ⟨stop, hstop⟩

theorem get?_functions_performAll (hc : h.database.Coherent) (calls : List Call)
    (start : UInt64) :
    (h.performAll calls).database.functions.get? start =
      (lastStop? (addedFunctions calls) start).or (h.database.functions.get? start) := by
  induction calls generalizing h with
  | nil => rfl
  | cons c rest ih =>
    have hsplit : addedFunctions (c :: rest) = addedFunctions [c] ++ addedFunctions rest := by
      simp [addedFunctions, ← List.filterMap_append]
    have hrest := ih ((extends_perform hc c).coherent hc)
    rw [hsplit, lastStop?_append, Option.or_assoc, ← get?_functions_perform hc c start]
    exact hrest

theorem get?_functions_built (pointerSize : UInt64) (calls : List Call) (start : UInt64) :
    (built pointerSize calls).database.functions.get? start =
      lastStop? (addedFunctions calls) start := by
  rw [built, get?_functions_performAll (Database.coherent_empty pointerSize) calls start]
  exact Option.or_none

/-- The one function that is looked at has the address, or none is found. -/
theorem functionAt?_eq_some {h : Host} :
    h.functionAt? a = some f ↔
      h.database.functions.last? a = some (f.start, f.stop) ∧ a < f.stop := by
  unfold Host.functionAt? Database.functionAt?
  cases hlast : h.database.functions.last? a with
  | none => simp
  | some e =>
    obtain ⟨start, stop⟩ := e
    obtain ⟨fstart, fstop⟩ := f
    simp only [Option.ite_none_right_eq_some, Option.some.injEq, AddressRange.mk.injEq,
      Prod.mk.injEq]
    constructor
    · rintro ⟨hlt, rfl, rfl⟩
      exact ⟨⟨rfl, rfl⟩, hlt⟩
    · rintro ⟨⟨rfl, rfl⟩, hlt⟩
      exact ⟨hlt, rfl, rfl⟩

/-- The look-up finds the function that counts among those with the nearest start. -/
theorem functionAt?_nearest (pointerSize : UInt64) (calls : List Call) :
    (built pointerSize calls).functionAt? a = some f ↔
      Stands (addedFunctions calls) f ∧ f.start ≤ a ∧
        (∀ g ∈ addedFunctions calls, g.start ≤ a → g.start ≤ f.start) ∧ a < f.stop := by
  rw [functionAt?_eq_some, SortedMap.last?_eq_some_iff, get?_functions_built, lastStop?_eq_some,
    and_assoc, and_assoc]
  refine and_congr_right fun _ => and_congr_right fun _ => and_congr_left fun _ => ?_
  constructor
  · intro hnearest g hg hle
    obtain ⟨other, hother, hstart⟩ := exists_stands hg
    rw [← hstart] at hle ⊢
    refine hnearest other.start other.stop ?_ hle
    rw [get?_functions_built]
    exact lastStop?_eq_some.mpr hother
  · intro hnearest start stop hstop hle
    rw [get?_functions_built] at hstop
    exact hnearest ⟨start, stop⟩ (lastStop?_eq_some.mp hstop).mem hle

end Host

/-- The functions come in another order, in which those with the same start keep theirs. -/
def Reordered (ranges others : List AddressRange) : Prop :=
  ∀ start, others.filter (·.start = start) = ranges.filter (·.start = start)

theorem Reordered.functions_eq {pointerSize : UInt64} {calls others : List Call}
    (h : Reordered (addedFunctions calls) (addedFunctions others)) :
    (Host.built pointerSize others).database.functions =
      (Host.built pointerSize calls).database.functions := by
  refine SortedMap.ext fun start => ?_
  simp only [Host.get?_functions_built, lastStop?, lastFrom?, h start]

/-- An address belongs to a function just if, of all functions with the nearest start, the one that
was added last reaches beyond it.  If the functions that count are separate, this is the one that
has the address; and it only matters in which order those with the same start were added. -/
theorem functionAt?_built (pointerSize : UInt64) (calls : List Call) (a : UInt64) :
    let h := Host.built pointerSize calls
    let ranges := addedFunctions calls
    (∀ f, h.functionAt? a = some f ↔ Stands ranges f ∧ f.start ≤ a ∧
      (∀ g ∈ ranges, g.start ≤ a → g.start ≤ f.start) ∧ a < f.stop) ∧
    (Separate ranges → ∀ f, h.functionAt? a = some f ↔
      Stands ranges f ∧ a ∈ f ∧ ∀ g, Stands ranges g → a ∈ g → g = f) ∧
    ∀ others, Reordered ranges (addedFunctions others) →
      (Host.built pointerSize others).functionAt? a = h.functionAt? a := by
  intro h ranges
  have hnearest (f : AddressRange) := Host.functionAt?_nearest (a := a) (f := f) pointerSize calls
  refine ⟨hnearest, fun hseparate f => ?_, fun others hothers => ?_⟩
  · rw [hnearest f]
    constructor
    · rintro ⟨hf, hstart, -, hstop⟩
      have ha : a ∈ f := ⟨hstart, hstop⟩
      exact ⟨hf, ha, fun g hg hag => hseparate.eq_of_mem hg hf hag ha⟩
    · rintro ⟨hf, ha, -⟩
      exact ⟨hf, ha.1, fun g hg hle => hseparate.start_le hf ha hg hle, ha.2⟩
  · unfold Host.functionAt? Database.functionAt?
    rw [hothers.functions_eq]

/-- Two functions side by side, the first of which was longer when it was added first: the look-up
tells the addresses on both sides of their border apart, and finds nothing behind them. -/
theorem functionAt?_built_adjacent :
    let calls : List Call := [.addFunction ⟨32, 48⟩, .addFunction ⟨16, 64⟩,
      .addNamedType "int" (.int .w32 true false), .addFunction ⟨16, 32⟩]
    let others : List Call :=
      [.addFunction ⟨16, 64⟩, .addFunction ⟨16, 32⟩, .addFunction ⟨32, 48⟩]
    Separate (addedFunctions calls) ∧ Reordered (addedFunctions calls) (addedFunctions others) ∧
      (Host.built 8 calls).functionAt? 31 = some ⟨16, 32⟩ ∧
      (Host.built 8 others).functionAt? 31 = some ⟨16, 32⟩ ∧
      (Host.built 8 calls).functionAt? 32 = some ⟨32, 48⟩ ∧
      ∀ f, (Host.built 8 calls).functionAt? 48 ≠ some f := by
  intro calls others
  have hseparate : Separate (addedFunctions calls) := by
    refine ⟨by decide, fun f hf g hg hstands hstands' hne a haf hag => ?_⟩
    have hapart : ∀ f ∈ addedFunctions calls, ∀ g ∈ addedFunctions calls,
        Stands (addedFunctions calls) f → Stands (addedFunctions calls) g → f ≠ g →
          f.stop ≤ g.start ∨ g.stop ≤ f.start := by decide
    rcases hapart f hf g hg hstands hstands' hne with hle | hle
    · exact UInt64.not_lt.mpr hle (UInt64.lt_of_le_of_lt hag.1 haf.2)
    · exact UInt64.not_lt.mpr hle (UInt64.lt_of_le_of_lt haf.1 hag.2)
  have hothers : Reordered (addedFunctions calls) (addedFunctions others) := by
    intro start
    have hcalls : addedFunctions calls = [⟨32, 48⟩, ⟨16, 64⟩, ⟨16, 32⟩] := rfl
    have hothers : addedFunctions others = [⟨16, 64⟩, ⟨16, 32⟩, ⟨32, 48⟩] := rfl
    rw [hcalls, hothers]
    by_cases hstart : start = 32
    · subst hstart
      rfl
    · simp [List.filter_cons, Ne.symm hstart]
  have hfirst : (Host.built 8 calls).functionAt? 31 = some ⟨16, 32⟩ :=
    ((functionAt?_built 8 calls 31).1 _).mpr (by decide)
  have hsecond : (Host.built 8 calls).functionAt? 32 = some ⟨32, 48⟩ :=
    ((functionAt?_built 8 calls 32).1 _).mpr (by decide)
  refine ⟨hseparate, hothers, hfirst, ?_, hsecond, fun f hf => ?_⟩
  · rw [(functionAt?_built 8 calls 31).2.2 others hothers, hfirst]
  · obtain ⟨hstands, ha, -⟩ := ((functionAt?_built 8 calls 48).2.1 hseparate f).mp hf
    have hnone : ∀ f ∈ addedFunctions calls, Stands (addedFunctions calls) f →
        (48 : UInt64) ∉ f := by decide
    exact hnone f hstands.mem hstands ha

end DebugSymbols
