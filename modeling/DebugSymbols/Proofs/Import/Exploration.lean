import DebugSymbols.Proofs.Import.Passes

/-!
Which types an import comes across.  A type that is made from itself never comes to be
(`Trace.endless`), and what a pending structure refers to has been looked into, down to entries
that are done with (`Explored`).  So resolving it again meets no new structure
(`Trace.noRecord`).
-/

namespace DebugSymbols.Importer

variable {i : Importer} {scope : Scope} {σ τ : History} {d : Die}

/-! ## Types made from themselves -/

/-- Each of the offsets is being resolved, or is that of a type made from the one at another. -/
def Leads (i : Importer) (resolving : List UInt64) (T : UInt64 → Prop) : Prop :=
  ∀ y, T y → y ∈ resolving ∨ ∃ d z, i.info.dieAt y = .ok d ∧ d.Modifies z ∧ T z

theorem Awaits.leads {resolving : List UInt64} {x : UInt64} (h : i.Awaits resolving x) :
    ∃ T : UInt64 → Prop, T x ∧ i.Leads resolving T := by
  induction h with
  | @here resolving x hx =>
    refine ⟨(· = x), rfl, ?_⟩
    rintro y rfl
    exact .inl hx
  | @there resolving x y d hat hmodifies _ ih =>
    obtain ⟨T, hy, hT⟩ := ih
    refine ⟨fun z => z = x ∨ T z, .inl rfl, ?_⟩
    have made : ∃ d z, i.info.dieAt x = .ok d ∧ d.Modifies z ∧ (z = x ∨ T z) :=
      ⟨d, y, hat, hmodifies, .inr hy⟩
    rintro z (rfl | hz)
    · exact .inr made
    · rcases hT z hz with hmem | ⟨d', w, hat', hmodifies', hw⟩
      · rcases List.mem_cons.mp hmem with rfl | hmem
        · exact .inr made
        · exact .inl hmem
      · exact .inr ⟨d', w, hat', hmodifies', .inr hw⟩

/-- A type is made only when the one that it is made from is there. -/
theorem Finding.typeAt_of_modifies {o : Ordinal} {pending : Bool} {y : UInt64}
    (h : i.Finding σ d (.type o pending)) (hy : d.Modifies y) : ∃ o', σ.session.TypeAt y o' := by
  cases h with
  | plain _ hmodifier =>
    rw [hy.1] at hmodifier
    cases hmodifier
  | derived _ htarget =>
    unfold Session.Target at htarget
    rw [hy.2] at htarget
    exact ⟨_, htarget⟩
  | known hdef =>
    have hmodifier := isModifier_of_isRecord hdef.1
    rw [hy.1] at hmodifier
    cases hmodifier
  | made hmade =>
    have hmodifier := isModifier_of_isRecord hmade.defines.1
    rw [hy.1] at hmodifier
    cases hmodifier

/-- Types that are only made from each other do not come to be. -/
theorem Trace.endless {T : UInt64 → Prop} (hT : i.Leads [] T) (hs : i.Sound σ)
    (ht : i.Trace scope σ τ) (h : ∀ y, T y → σ.session.cache.type? y = none) :
    ∀ y, T y → τ.session.cache.type? y = none := by
  induction ht with
  | refl => exact h
  | @tail υ φ ht hc ih =>
    intro y hy
    by_contra hsome
    obtain ⟨⟨o, pending⟩, hget⟩ := Option.ne_none_iff_exists'.mp hsome
    rcases hc.typeAt_cases (Trace.sound hs ht) hget with
      ⟨pending', hold, -⟩ | ⟨d, -, -, hat, hfinding⟩
    · rw [ih y hy] at hold
      cases hold
    · rcases hT y hy with hmem | ⟨d', z, hat', hmodifies, hz⟩
      · cases hmem
      · rw [hat] at hat'
        cases hat'
        obtain ⟨o', pending', htype⟩ := hfinding.typeAt_of_modifies hmodifies
        rw [ih z hz] at htype
        cases htype

/-- Nothing comes of asking for the type at any of the offsets: none is there, and each was
dismissed or is that of a type made from the one at another. -/
structure Vain (i : Importer) (c : OffsetCache) (T : UInt64 → Prop) : Prop where
  typeless : ∀ {y}, T y → c.type? y = none
  leads : ∀ {y}, T y → c.has y = true ∨ ∃ d z, i.info.dieAt y = .ok d ∧ d.Modifies z ∧ T z

/-- In a session that began without types, it is vain to ask for one that is barred. -/
theorem Barred.vain (hs : i.Sound σ) (hempty : ∀ x, σ.session.cache.type? x = none)
    (ht : i.Trace scope σ τ) {y : UInt64} (h : i.Barred τ y) :
    ∃ T : UInt64 → Prop, T y ∧ i.Vain τ.session.cache T := by
  rcases h with ⟨hhas, hnone⟩ | hawaits
  · exact ⟨(· = y), rfl, fun heq => heq ▸ hnone, fun heq => .inl (heq ▸ hhas)⟩
  · obtain ⟨T, hy, hT⟩ := hawaits.leads
    refine ⟨T, hy, fun hz => Trace.endless hT hs ht (fun y _ => hempty y) _ hz, fun hz => .inr ?_⟩
    exact (hT _ hz).resolve_left nofun

theorem Barred.typeAt (hs : i.Sound σ) (hempty : ∀ x, σ.session.cache.type? x = none)
    (ht : i.Trace scope σ τ) {y : UInt64} (h : i.Barred τ y) (o : Ordinal) :
    ¬ τ.session.TypeAt y o := by
  rintro ⟨pending, htype⟩
  obtain ⟨T, hy, hT⟩ := h.vain hs hempty ht
  rw [hT.typeless hy] at htype
  cases htype

/-! ## Types that were looked into -/

/-- What the type at an offset is made from was followed to an entry that is done with, to one
that is being resolved, or round in a circle. -/
def Explored (i : Importer) (s : Session) (x : UInt64) : Prop :=
  ∃ V : UInt64 → Prop, V x ∧ ∀ y, V y →
    s.cache.has y = true ∨ y ∈ s.resolving ∨ ∃ d z, i.info.dieAt y = .ok d ∧ d.Modifies z ∧ V z

theorem Explored.step {s : Session} {x : UInt64} (h : i.Explored s x) :
    s.cache.has x = true ∨ x ∈ s.resolving ∨
      ∃ d z, i.info.dieAt x = .ok d ∧ d.Modifies z ∧ i.Explored s z := by
  obtain ⟨V, hx, hV⟩ := h
  rcases hV x hx with hhas | hmem | ⟨d, z, hat, hmodifies, hz⟩
  · exact .inl hhas
  · exact .inr (.inl hmem)
  · exact .inr (.inr ⟨d, z, hat, hmodifies, V, hz, hV⟩)

theorem explored_of_has {s : Session} {x : UInt64} (h : s.cache.has x = true) :
    i.Explored s x :=
  ⟨(· = x), rfl, fun _ hy => .inl (hy ▸ h)⟩

theorem Awaits.explored {s : Session} {x : UInt64} (h : i.Awaits s.resolving x) :
    i.Explored s x := by
  obtain ⟨T, hx, hT⟩ := h.leads
  exact ⟨T, hx, fun y hy => .inr (hT y hy)⟩

/-- Entries that were looked into stay so: one that is no longer being resolved is done with, or
made from a type that was looked into. -/
theorem Change.explored (hs : i.Sound σ) (hc : i.Change scope σ τ) {x : UInt64}
    (h : i.Explored σ.session x) : i.Explored τ.session x := by
  refine ⟨i.Explored σ.session, h, fun y hy => ?_⟩
  rcases hy.step with hhas | hmem | hmade
  · exact .inl (hc.has hhas)
  · cases hc with
    | note | grow | create | attach | dismiss | place | clear => exact .inr (.inl hmem)
    | enter => exact .inr (.inl (List.mem_cons_of_mem _ hmem))
    | @leave d rest out hstack hat hfinding =>
      rw [hstack] at hmem
      rcases List.mem_cons.mp hmem with rfl | hmem
      · have hget := hs.uncached d.offset (by simp [hstack])
        cases hfinding with
        | useless =>
          exact .inl (by simp [remember, OffsetCache.has, OffsetCache.get?_markUseless])
        | deferred hmodifies hawaits =>
          exact .inr (.inr ⟨d, _, hat, hmodifies, hawaits.explored⟩)
        | plain | derived | known | made =>
          refine .inl ?_
          simp [remember, OffsetCache.has, OffsetCache.get?_markType, OffsetCache.isOpen, hget]
      · exact .inr (.inl hmem)
  · exact .inr (.inr hmade)

/-- What pending structures refer to was looked into. -/
def PendingExplored (i : Importer) (s : Session) : Prop :=
  ∀ x o, s.cache.type? x = some (o, true) → ∀ d layout, i.info.dieAt x = .ok d →
    d.layout = .ok layout → ∀ m ∈ layout, ∀ y, m.typeOffset = some y → i.Explored s y

theorem Change.pendingExplored (hs : i.Sound σ) (hc : i.Change scope σ τ)
    (h : i.PendingExplored σ.session) : i.PendingExplored τ.session := by
  intro x o htype d layout hat hlayout m hm y hy
  refine hc.explored hs ?_
  rcases hc.typeAt_cases hs htype with ⟨pending, hold, hp⟩ | ⟨d', -, -, hat', hfinding⟩
  · rw [hp rfl] at hold
    exact h x o hold d layout hat hlayout m hm y hy
  · rw [hat] at hat'
    cases hat'
    cases hfinding with
    | made hmade =>
      obtain ⟨layout', hlayout', hmembers⟩ := hmade.members
      rw [hlayout] at hlayout'
      cases hlayout'
      rcases hmembers m hm y hy with ⟨o', pending', htype'⟩ | ⟨-, hhas | hawaits⟩
      · refine explored_of_has ?_
        rw [OffsetCache.type?_eq_some] at htype'
        simp [OffsetCache.has, htype']
      · exact explored_of_has hhas
      · exact hawaits.explored

theorem Trace.pendingExplored (hs : i.Sound σ) (ht : i.Trace scope σ τ)
    (h : i.PendingExplored σ.session) : i.PendingExplored τ.session := by
  induction ht with
  | refl => exact h
  | tail ht hc ih => exact hc.pendingExplored (Trace.sound hs ht) ih

/-! ## Looking again -/

/-- Only types that were looked into may be asked for. -/
def retracing (i : Importer) (s : Session) : Scope := ⟨i.Explored s, True⟩

/-- The types that are being resolved are made from others, and were looked into before. -/
def LooksAgain (i : Importer) (s : Session) (τ : History) : Prop :=
  ∀ x ∈ τ.session.resolving,
    i.Explored s x ∧ ∃ d y, i.info.dieAt x = .ok d ∧ d.Modifies y ∧ i.Explored s y

variable {s : Session}

/-- An entry that was looked into and is not done with is made from another. -/
theorem Explored.modifies {x : UInt64} (h : i.Explored s x) (hidle : s.resolving = [])
    (hhas : ∀ x, s.cache.has x = true → τ.session.cache.has x = true)
    (hget : τ.session.cache.get? x = none) :
    ∃ d y, i.info.dieAt x = .ok d ∧ d.Modifies y ∧ i.Explored s y := by
  rcases h.step with hold | hmem | hmade
  · have hnew := hhas x hold
    simp [OffsetCache.has, hget] at hnew
  · rw [hidle] at hmem
    cases hmem
  · exact hmade

/-- What an entry that is made from another refers to is nothing else. -/
theorem eq_of_refers {x y : UInt64} (hmodifies : d.Modifies y) (hrefers : d.Refers x) : x = y := by
  rcases hrefers with ⟨-, hx⟩ | ⟨hrecord, -⟩
  · rw [hmodifies.2] at hx
    cases hx
    rfl
  · have hmodifier := isModifier_of_isRecord hrecord
    rw [hmodifies.1] at hmodifier
    cases hmodifier

theorem LooksAgain.enter {x : UInt64} (h : i.LooksAgain s τ)
    (hask : i.MayAsk (retracing i s) x τ.session.resolving) : i.Explored s x := by
  cases hstack : τ.session.resolving with
  | nil =>
    rw [hstack] at hask
    exact hask
  | cons y rest =>
    rw [hstack] at hask
    obtain ⟨d, hat, hrefers⟩ := hask
    obtain ⟨-, d', z, hat', hmodifies, hz⟩ := h y (by simp [hstack])
    rw [hat] at hat'
    cases hat'
    rw [eq_of_refers hmodifies hrefers]
    exact hz

/-- The type that is being resolved is no structure or union. -/
theorem LooksAgain.not_definesRecord (h : i.LooksAgain s τ)
    (hmem : d.offset ∈ τ.session.resolving) (hat : i.info.dieAt d.offset = .ok d) :
    ¬ d.DefinesRecord := by
  obtain ⟨-, d', z, hat', hmodifies, -⟩ := h d.offset hmem
  rw [hat] at hat'
  cases hat'
  intro hdef
  have hmodifier := isModifier_of_isRecord hdef.1
  rw [hmodifies.1] at hmodifier
  cases hmodifier

/-- Nothing new happens to definitions: none is made, and no structure gets pending. -/
structure NoRecord (τ υ : History) : Prop where
  steady : τ.session.host.database.Steady υ.session.host.database
  pending : ∀ {x o}, υ.session.cache.type? x = some (o, true) →
    τ.session.cache.type? x = some (o, true)

theorem NoRecord.refl (τ : History) : NoRecord τ τ := ⟨.refl _, id⟩

theorem NoRecord.trans {υ φ : History} (h : NoRecord τ υ) (h' : NoRecord υ φ) : NoRecord τ φ :=
  ⟨h.steady.trans h'.steady, fun htype => h.pending (h'.pending htype)⟩

/-- The type that is being resolved is no enumeration. -/
theorem LooksAgain.not_enumerates (h : i.LooksAgain s τ) : ¬ i.Enumerates τ.session.resolving := by
  rintro ⟨d, hhead, hat, htag⟩
  obtain ⟨-, d', z, hat', hmodifies, -⟩ := h d.offset (List.mem_of_head? hhead)
  rw [hat] at hat'
  cases hat'
  have hmodifier := hmodifies.1
  rw [htag] at hmodifier
  cases hmodifier

theorem Change.looksAgain {υ : History} (hidle : s.resolving = []) (hs : i.Sound τ)
    (hhas : ∀ x, s.cache.has x = true → τ.session.cache.has x = true) (h : i.LooksAgain s τ)
    (hc : i.Change (retracing i s) τ υ) : i.LooksAgain s υ ∧ NoRecord τ υ := by
  have pending {x : UInt64} {o : Ordinal} (htype : υ.session.cache.type? x = some (o, true)) :
      τ.session.cache.type? x = some (o, true) := by
    rcases hc.typeAt_cases hs htype with ⟨pending, hold, hp⟩ | ⟨d, rfl, hhead, hat, hfinding⟩
    · rwa [hp rfl] at hold
    · cases hfinding with
      | made hmade =>
        exact absurd hmade.defines (h.not_definesRecord (List.mem_of_head? hhead) hat)
  cases hc with
  | note | dismiss | place | clear => exact ⟨h, .refl _, pending⟩
  | grow _ _ _ hsteady => exact ⟨h, hsteady.resolve_right h.not_enumerates, pending⟩
  | @create d id host hhead _ hcreates =>
    have hmem : d.offset ∈ τ.session.resolving := List.mem_of_head? hhead
    exact absurd hcreates.defines (h.not_definesRecord hmem hcreates.at_)
  | attach _ hattaches =>
    obtain ⟨db, hdb, rfl⟩ := Host.addStructMember?_eq_some hattaches.added
    obtain ⟨def_, hadds⟩ := Database.addsMember hdb
    exact ⟨h, hadds.steady, pending⟩
  | @enter d hget hmem hat hask =>
    have hexplored := h.enter hask
    refine ⟨fun x hx => ?_, .refl _, pending⟩
    rcases List.mem_cons.mp hx with rfl | hx
    · exact ⟨hexplored, hexplored.modifies hidle hhas hget⟩
    · exact h x hx
  | @leave d rest out hstack =>
    exact ⟨fun x hx => h x (by simp [hstack, hx]), .refl _, pending⟩

theorem Trace.looksAgain (hs : i.Sound σ) (hidle : σ.session.resolving = [])
    (ht : i.Trace (retracing i σ.session) σ τ) : i.LooksAgain σ.session τ := by
  induction ht with
  | refl =>
    intro x hx
    rw [hidle] at hx
    cases hx
  | @tail υ φ ht hc ih =>
    exact (hc.looksAgain hidle (Trace.sound hs ht) (fun _ => Trace.has ht) ih).1

/-- While only types are asked for that were looked into, nothing new happens to definitions. -/
theorem Trace.noRecord {μ : History} (hs : i.Sound σ) (hidle : σ.session.resolving = [])
    (ht : i.Trace (retracing i σ.session) σ μ) (ht' : i.Trace (retracing i σ.session) μ τ) :
    NoRecord μ τ := by
  induction ht' with
  | refl => exact .refl μ
  | @tail υ φ ht' hc ih =>
    have hall := ht.trans ht'
    exact ih.trans (hc.looksAgain hidle (Trace.sound hs hall) (fun _ => Trace.has hall)
      (Trace.looksAgain hs hidle hall)).2

/-- A size that is unknown in the course of the second pass stays so. -/
theorem NoRecord.typeSize?_eq_none (hn : NoRecord σ τ) (hs : i.Sound σ) (hs' : i.Sound τ)
    {y : UInt64} {o : Ordinal} (htype : σ.session.TypeAt y o)
    (hsize : σ.session.host.typeSize? o = none) : τ.session.host.typeSize? o = none := by
  rw [hs.typeSize?] at hsize
  rw [hs'.typeSize?]
  exact (hs.grounded htype).typeSize?_eq_none hn.steady hsize

/-- What was found when a structure was gone over is still so. -/
theorem Passed.inspected (hs : i.Sound σ) (hidle : σ.session.resolving = []) {id : StructId}
    {m : MemberLayout} (hp : i.Passed (retracing i σ.session) σ τ id m) : i.Inspected τ id m := by
  obtain ⟨μ, ht, ht', hinspected⟩ := hp
  have hsμ := Trace.sound hs ht
  have he := Trace.extends hsμ ht'
  intro y hy
  rcases hinspected y hy with hnamed | ⟨o, htype, hsize⟩ | hbarred
  · exact .inl (hnamed.later he)
  · have hnone := (Trace.noRecord hs hidle ht ht').typeSize?_eq_none hsμ (Trace.sound hsμ ht')
      htype hsize
    exact .inr (.inl ⟨o, he.types htype, hnone⟩)
  · exact .inr (.inr (hbarred.later hsμ ht'))

end DebugSymbols.Importer
