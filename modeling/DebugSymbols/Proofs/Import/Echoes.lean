import DebugSymbols.Proofs.Import.Exhaustion

/-!
What happens in a session in which there is nothing left to do, when it is told to do it again.
Types that are not there are asked for in vain (`visitsInVain_resolveDie`), and no structure gets a
member (`run_completeAt_again`), so all that can happen is that the cache is revised
(`Exhausted.echoes`).
-/

namespace DebugSymbols

open Importer

/-- Two members of the entry share a name, but not a type. -/
def Die.RepeatsName (d : Die) : Prop :=
  ∃ layout, d.layout = .ok layout ∧
    ∃ l ∈ layout, ∃ m ∈ layout, l.name = m.name ∧ l.typeOffset ≠ m.typeOffset

instance (d : Die) : Decidable d.RepeatsName :=
  match h : d.layout with
  | .ok layout =>
    decidable_of_iff
      (∃ l ∈ layout, ∃ m ∈ layout, l.name = m.name ∧ l.typeOffset ≠ m.typeOffset)
      (by simp [Die.RepeatsName, h])
  | .error _ => .isFalse (by simp [Die.RepeatsName, h])

namespace Importer

variable {i : Importer} {σ : History} {s t : Session} {d : Die} {T : UInt64 → Prop}

/-! ## What becomes of the cache -/

/-- What a repeated import may make of what the cache says of an entry. -/
inductive Revision (i : Importer) (x : UInt64) :
    Option Classification → Option Classification → Prop
  | same (cl : Option Classification) : Revision i x cl cl
  | dismissed {d : Die} :
      i.info.dieAt x = .ok d → d.tag.isModifier = true → ¬ i.info.Walks d →
      Revision i x none (some .useless)
  | completed {d : Die} (o : Ordinal) :
      i.info.dieAt x = .ok d → d.RepeatsName →
      Revision i x (some (.type o true)) (some (.type o false))

/-- An entry that is walked over stays as it is, unless it is that of a pending structure two of
whose members share a name. -/
structure Revises (i : Importer) (c c' : OffsetCache) : Prop where
  origins : ∀ o, c'.typeOffset? o = c.typeOffset? o
  entries : ∀ x, i.Revision x (c.get? x) (c'.get? x)

theorem Revises.refl (i : Importer) (c : OffsetCache) : i.Revises c c :=
  ⟨fun _ => rfl, fun _ => .same _⟩

theorem Revises.has {c c' : OffsetCache} (h : i.Revises c c') {x : UInt64}
    (hhas : c.has x = true) : c'.has x = true := by
  unfold OffsetCache.has at hhas ⊢
  have hx := h.entries x
  generalize c.get? x = before, c'.get? x = after at hx hhas
  cases hx with
  | same => exact hhas
  | dismissed => cases hhas
  | completed => rfl

/-- No type is new, and none is gone. -/
theorem Revises.type?_cases {c c' : OffsetCache} (h : i.Revises c c') (x : UInt64) :
    c'.type? x = c.type? x ∨
      ∃ o, c.type? x = some (o, true) ∧ c'.type? x = some (o, false) := by
  unfold OffsetCache.type?
  have hx := h.entries x
  generalize c.get? x = before, c'.get? x = after at hx
  cases hx with
  | same | dismissed => exact .inl rfl
  | completed o => exact .inr ⟨o, rfl, rfl⟩

theorem Revises.type?_eq_none {c c' : OffsetCache} (h : i.Revises c c') {x : UInt64}
    (hnone : c.type? x = none) : c'.type? x = none := by
  rcases h.type?_cases x with hsame | ⟨o, hpending, -⟩
  · rw [hsame, hnone]
  · rw [hnone] at hpending
    cases hpending

theorem Revises.type? {c c' : OffsetCache} (h : i.Revises c c') {x : UInt64} {o : Ordinal}
    {pending : Bool} (htype : c.type? x = some (o, pending)) :
    ∃ pending', c'.type? x = some (o, pending') := by
  rcases h.type?_cases x with hsame | ⟨o', hpending, hdone⟩
  · exact ⟨pending, hsame.trans htype⟩
  · rw [htype] at hpending
    cases hpending
    exact ⟨false, hdone⟩

/-- What is pending was so before. -/
theorem Revises.pending {c c' : OffsetCache} (h : i.Revises c c') {x : UInt64} {o : Ordinal}
    (htype : c'.type? x = some (o, true)) : c.type? x = some (o, true) := by
  rcases h.type?_cases x with hsame | ⟨o', -, hdone⟩
  · rw [← hsame, htype]
  · rw [htype] at hdone
    cases hdone

/-- If everything is walked over that is made from another type, and no entry repeats a name, then
nothing is revised. -/
theorem Revises.eq {c c' : OffsetCache} (h : i.Revises c c')
    (hwalks : ∀ d, i.info.Holds d → d.tag.isModifier = true → i.info.Walks d)
    (hnames : ∀ d, i.info.Holds d → ¬ d.RepeatsName) : c' = c := by
  refine OffsetCache.ext (fun x => ?_) fun n => h.origins ⟨n⟩
  have hx := h.entries x
  change c'.get? x = c.get? x
  generalize c.get? x = before, c'.get? x = after at hx
  cases hx with
  | same => rfl
  | dismissed hat hmodifier hwalked =>
    exact absurd (hwalks _ (DebugInfo.holds_of_dieAt hat) hmodifier) hwalked
  | completed _ hat hrepeats =>
    exact absurd hrepeats (hnames _ (DebugInfo.holds_of_dieAt hat))

/-! ## Asking in vain -/

/-- Some of the offsets that were not cached were dismissed. -/
structure Dismisses (T : UInt64 → Prop) (c c' : OffsetCache) : Prop where
  origins : ∀ o, c'.typeOffset? o = c.typeOffset? o
  entries : ∀ x, c'.get? x = c.get? x ∨ T x ∧ c.get? x = none ∧ c'.get? x = some .useless

theorem Dismisses.refl (T : UInt64 → Prop) (c : OffsetCache) : Dismisses T c c :=
  ⟨fun _ => rfl, fun _ => .inl rfl⟩

theorem Dismisses.markUseless {c c' : OffsetCache} (h : Dismisses T c c') {x : UInt64} (hx : T x) :
    Dismisses T c (c'.markUseless x) := by
  refine ⟨fun o => (OffsetCache.typeOffset?_markUseless c' x o).trans (h.origins o), fun y => ?_⟩
  rw [OffsetCache.get?_markUseless]
  split
  · rename_i hy
    subst hy
    rcases h.entries y with hsame | ⟨-, hnone, hdismissed⟩
    · rw [hsame]
      cases c.get? y with
      | none => exact .inr ⟨hx, rfl, rfl⟩
      | some cl => exact .inl rfl
    · rw [hdismissed]
      exact .inr ⟨hx, hnone, rfl⟩
  · exact h.entries y

/-- Only some of the offsets were dismissed. -/
structure Fruitless (T : UInt64 → Prop) (s t : Session) : Prop where
  host : t.host = s.host
  resolving : t.resolving = s.resolving
  cache : Dismisses T s.cache t.cache

theorem Fruitless.refl (T : UInt64 → Prop) (s : Session) : Fruitless T s s := ⟨rfl, rfl, .refl T _⟩

/-- The handler of an entry that is made from another type fails at once, or asks for that type. -/
theorem describe_of_modifies (i : Importer) {y : UInt64} (hy : d.Modifies y) (resolve : Resolver) :
    (∃ e, i.describe resolve d = throw e) ∨
      ∃ f, i.describe resolve d = (do ofTarget f (← liftM (resolve y))) := by
  by_cases hname : d.tag = .typedef → ∃ name, d.name = .ok name
  · obtain ⟨f, -, heq⟩ := describe_eq_ofTarget i hy hname
    exact .inr ⟨f, heq resolve⟩
  · obtain ⟨htag, hunnamed⟩ := Classical.not_imp.mp hname
    cases hread : d.name with
    | ok name => exact absurd ⟨name, hread⟩ hunnamed
    | error e =>
      refine .inl ⟨.debugInfo e, ?_⟩
      unfold describe
      rw [htag]
      simp only [typedefType, hread]
      rfl

/-- Visits of such entries find no type, and only dismiss some of them. -/
def VisitsInVain (i : Importer) (T : UInt64 → Prop) (visit : Die → Step Outcome) : Prop :=
  ∀ s d, i.Vain s.cache T → T d.offset → i.info.dieAt d.offset = .ok d →
    s.cache.get? d.offset = none → d.offset ∉ s.resolving →
    ∃ out t, (visit d).run s = (out, t) ∧ (∀ o pending, out ≠ .type o pending) ∧ Fruitless T s t

theorem run_resolveWith_vain (hi : i.info.Indexed) {visit : Die → Step Outcome}
    (hv : i.VisitsInVain T visit) (hT : i.Vain s.cache T) {y : UInt64} (hy : T y) :
    ∃ r t, (i.resolveWith visit y).run s = (r, t) ∧ (∀ o, r ≠ .resolved o) ∧ Fruitless T s t := by
  unfold resolveWith
  rw [StateT.run_bind, StateT.run_get, pure_bind]
  cases hget : s.cache.get? y with
  | some cl =>
    cases cl with
    | type o pending =>
      have htype := OffsetCache.type?_eq_some.mpr hget
      rw [hT.typeless hy] at htype
      cases htype
    | useless | placed => exact ⟨.missing, s, rfl, by simp, .refl T s⟩
  | none =>
    by_cases hmem : y ∈ s.resolving
    · refine ⟨.inProgress, s, ?_, by simp, .refl T s⟩
      simp only [hmem, if_true]
      rfl
    · obtain ⟨d, z, hat, -, -⟩ := hT.leads hy |>.resolve_left (by simp [OffsetCache.has, hget])
      obtain rfl := hi.offset_of_dieAt hat
      obtain ⟨out, t, hrun, hout, hfruitless⟩ := hv s d hT hy hat hget hmem
      refine ⟨out.toRef, t, ?_, ?_, hfruitless⟩
      · simp only [hmem, if_false, hat]
        rw [StateT.run_bind, hrun]
        rfl
      · cases out with
        | type o pending => exact absurd rfl (hout o pending)
        | useless | deferred => simp [Outcome.toRef]

/-- The handler of an entry that is made from such a type finds no type. -/
def HandlesInVain (i : Importer) (T : UInt64 → Prop) (levels : Nat) : Prop :=
  ∀ s d y, i.Vain s.cache T → d.Modifies y → T y →
    ∃ r t, (i.handle levels d).run s = (r, t) ∧ (∀ o pending, outcomeOf r ≠ .type o pending) ∧
      Fruitless T s t

theorem visitsInVain_of_handle {levels : Nat} (hh : i.HandlesInVain T levels) :
    i.VisitsInVain T (i.resolveDie levels) := by
  intro s d hT hd hat hget hmem
  obtain ⟨d', y, hat', hmodifies, hy⟩ :=
    hT.leads hd |>.resolve_left (by simp [OffsetCache.has, hget])
  rw [hat] at hat'
  cases hat'
  obtain ⟨r, t, hrun, hr, hfruitless⟩ := hh (entered s d.offset) d y hT hmodifies hy
  obtain ⟨stats, warnings, hleave⟩ := run_leave d.offset r t
  let left : Session := { t with
    stats, warnings
    resolving := t.resolving.tail
    cache := remember d.offset t.cache (outcomeOf r) }
  have hrun' : (i.resolveDie levels d).run s = (outcomeOf r, left) := by
    rw [run_resolveDie hget hmem, StateT.run_bind, hrun]
    exact hleave
  have hresolving : left.resolving = s.resolving := congrArg List.tail hfruitless.resolving
  refine ⟨_, left, hrun', hr, hfruitless.host, hresolving, ?_⟩
  change Dismisses T s.cache (remember d.offset t.cache (outcomeOf r))
  cases hout : outcomeOf r with
  | type o pending => exact absurd hout (hr o pending)
  | useless => exact hfruitless.cache.markUseless hd
  | deferred => exact hfruitless.cache

theorem handlesInVain_succ (hi : i.info.Indexed) {levels : Nat}
    (hv : i.VisitsInVain T (i.resolveDie levels)) : i.HandlesInVain T (levels + 1) := by
  intro s d y hT hmodifies hy
  have hhandle : i.handle (levels + 1) d =
      (i.describe (i.resolveWith (i.resolveDie levels)) d).run := rfl
  rcases describe_of_modifies i hmodifies (i.resolveWith (i.resolveDie levels)) with
    ⟨e, heq⟩ | ⟨f, heq⟩
  · rw [hhandle, heq]
    exact ⟨.error e, s, rfl, nofun, .refl T s⟩
  · obtain ⟨r, t, hrun, hr, hfruitless⟩ := run_resolveWith_vain hi hv hT hy
    rw [hhandle, heq, Attempt.run_bind_ok (Attempt.run_lift hrun)]
    cases r with
    | resolved o => exact absurd rfl (hr o)
    | inProgress | missing => exact ⟨_, t, rfl, nofun, hfruitless⟩

theorem visitsInVain_resolveDie (hi : i.info.Indexed) (T : UInt64 → Prop) (levels : Nat) :
    i.VisitsInVain T (i.resolveDie levels) := by
  -- the handler of an entry asks with one level less, and at the last level it is not run
  induction levels with
  | zero => exact visitsInVain_of_handle fun s _ _ _ _ _ => ⟨_, s, rfl, nofun, .refl T s⟩
  | succ levels ih => exact visitsInVain_of_handle (handlesInVain_succ hi ih)

theorem run_resolve_vain (hi : i.info.Indexed) (hT : i.Vain s.cache T) {y : UInt64} (hy : T y) :
    ∃ r t, (i.resolve y).run s = (r, t) ∧ (∀ o, r ≠ .resolved o) ∧ Fruitless T s t :=
  run_resolveWith_vain hi (visitsInVain_resolveDie hi T _) hT hy

theorem run_resolve_typeAt {y : UInt64} {o : Ordinal} (h : s.TypeAt y o) :
    (i.resolve y).run s = (.resolved o, s) := by
  obtain ⟨pending, htype⟩ := h
  unfold resolve resolveWith
  rw [StateT.run_bind, StateT.run_get, pure_bind, OffsetCache.type?_eq_some.mp htype]
  rfl

/-! ## What a second run may do -/

/-- Nothing happened in between, apart from revisions of the cache. -/
structure Echoes (i : Importer) (s t : Session) : Prop where
  host : t.host = s.host
  resolving : t.resolving = s.resolving
  cache : i.Revises s.cache t.cache

theorem Echoes.refl (i : Importer) (s : Session) : i.Echoes s s := ⟨rfl, rfl, .refl i _⟩

theorem Echoes.typeAt (h : i.Echoes s t) {x : UInt64} {o : Ordinal} (htype : s.TypeAt x o) :
    t.TypeAt x o := by
  obtain ⟨pending, htype⟩ := htype
  exact h.cache.type? htype

theorem Echoes.note (h : i.Echoes s t) (stats : Stats) (warnings : Array Warning) :
    i.Echoes s { t with stats, warnings } := ⟨h.host, h.resolving, h.cache⟩

theorem Revises.vain {c c' : OffsetCache} (h : i.Revises c c') (hT : i.Vain c T) :
    i.Vain c' T where
  typeless hy := h.type?_eq_none (hT.typeless hy)
  leads hy := (hT.leads hy).imp_left h.has

/-- Entries that are asked for in vain are not walked over, if they are not cached. -/
theorem Revises.dismisses (hi : i.info.Indexed) {c c' c'' : OffsetCache}
    (hwalked : ∀ d, i.info.Walks d → c.has d.offset = true) (hT : i.Vain c T)
    (h : i.Revises c c') (hd : Dismisses T c' c'') : i.Revises c c'' := by
  refine ⟨fun o => (hd.origins o).trans (h.origins o), fun x => ?_⟩
  rcases hd.entries x with hsame | ⟨hx, hnone, hdismissed⟩
  · rw [hsame]
    exact h.entries x
  · have hget : c.get? x = none := by
      cases hget : c.get? x with
      | none => rfl
      | some cl =>
        have hhas := h.has (x := x) (by simp [OffsetCache.has, hget])
        simp [OffsetCache.has, hnone] at hhas
    have huncached : ¬ c.has x = true := by simp [OffsetCache.has, hget]
    -- so it leads on to another type, and a walk that came to it would have cached it
    obtain ⟨d, z, hat, hmodifies, -⟩ := (hT.leads hx).resolve_left huncached
    rw [hget, hdismissed]
    refine .dismissed hat hmodifies.1 fun hwalks => huncached ?_
    rw [← hi.offset_of_dieAt hat]
    exact hwalked d hwalks

theorem Revises.clearPending {c c' : OffsetCache} (h : i.Revises c c') {x : UInt64} {o : Ordinal}
    (htype : c.type? x = some (o, true)) (hat : i.info.dieAt x = .ok d) (hd : d.RepeatsName) :
    i.Revises c (c'.clearPending x) := by
  refine ⟨fun o => (OffsetCache.typeOffset?_clearPending c' x o).trans (h.origins o), fun y => ?_⟩
  rw [OffsetCache.get?_clearPending]
  split
  · rename_i hy
    subst hy
    obtain ⟨pending, htype'⟩ := h.type? htype
    rw [OffsetCache.type?_eq_some] at htype htype'
    rw [htype, htype']
    exact .completed o hat hd
  · exact h.entries y

/-! ## Structures that are gone over again -/

/-- No member is added. -/
theorem run_addMember_again (hi : i.info.Indexed) (hx : i.Exhausted σ)
    (he : i.Echoes σ.session t) (owner : UInt64) {id : StructId} {m : MemberLayout}
    (hm : i.Inspected σ id m) (hnamed : ¬ Named σ id m.name) :
    ∃ done u, (addMember i.resolve owner id m).run.run t = (.ok done, u) ∧
      i.Echoes σ.session u ∧ (done = true → Present σ id m) := by
  unfold addMember
  cases hy : m.typeOffset with
  | none => exact ⟨true, t, rfl, he, fun _ y hy' => by rw [hy] at hy'; cases hy'⟩
  | some y =>
    rcases hm y hy with hnamed' | ⟨o, htype, hsize⟩ | hbarred
    · exact absurd hnamed' hnamed
    · have hsized : t.sizedLinkTo o = .error (.sizeUnknown o) := by
        have hsame : t.sizedLinkTo o = σ.session.sizedLinkTo o := by
          unfold Session.sizedLinkTo Session.linkTo
          rw [he.host]
        rw [hsame, hx.sound.sizedLinkTo_eq_error htype hsize]
      dsimp only
      rw [Attempt.run_bind_ok (Attempt.run_lift (run_resolve_typeAt (he.typeAt htype)))]
      refine ⟨true, { t with warnings := t.warnings.push (.memberSkipped owner m.name
        (.sizeUnknown o)) }, ?_, he.note _ _, fun _ y' hy' => ?_⟩
      · unfold addResolved attachMember
        dsimp only
        rw [bind_assoc, Attempt.run_get_bind, hsized]
        rfl
      · rw [hy] at hy'
        cases hy'
        exact .inl ⟨o, htype⟩
    · obtain ⟨T, hT, hvain⟩ := hx.barred hbarred
      obtain ⟨r, u, hrun, hr, hfruitless⟩ := run_resolve_vain hi (he.cache.vain hvain) hT
      have he' : i.Echoes σ.session u :=
        ⟨hfruitless.host.trans he.host, hfruitless.resolving.trans he.resolving,
          he.cache.dismisses hi hx.walked hvain hfruitless.cache⟩
      dsimp only
      rw [Attempt.run_bind_ok (Attempt.run_lift hrun)]
      cases r with
      | resolved o => exact absurd rfl (hr o)
      | inProgress | missing => exact ⟨false, u, rfl, he', nofun⟩

theorem run_completeStruct_again (hi : i.info.Indexed) (hx : i.Exhausted σ)
    (he : i.Echoes σ.session t) (owner : UInt64) {id : StructId} {members : List MemberLayout}
    (hm : ∀ m ∈ members, i.Inspected σ id m) :
    ∃ complete u, (i.completeStruct owner id members).run.run t = (.ok complete, u) ∧
      i.Echoes σ.session u ∧ (complete = true → ∀ m ∈ members, Present σ id m) := by
  induction members generalizing t with
  | nil => exact ⟨true, t, rfl, he, nofun⟩
  | cons m rest ih =>
    have others (done : Bool) {u : Session} (he' : i.Echoes σ.session u)
        (hdone : done = true → Present σ id m) :
        ∃ complete v, (do
            let others ← i.completeStruct owner id rest
            return done && others : Attempt Bool).run.run u = (.ok complete, v) ∧
          i.Echoes σ.session v ∧ (complete = true → ∀ m' ∈ m :: rest, Present σ id m') := by
      obtain ⟨complete, v, hrun, he'', hcomplete⟩ := ih he' fun m' hm' => hm m' (by simp [hm'])
      refine ⟨done && complete, v, ?_, he'', fun hboth m' hm' => ?_⟩
      · rw [Attempt.run_bind_ok hrun]
        rfl
      · obtain ⟨rfl, rfl⟩ := Bool.and_eq_true_iff.mp hboth
        rcases List.mem_cons.mp hm' with rfl | hm'
        · exact hdone rfl
        · exact hcomplete rfl m' hm'
    unfold completeStruct
    rw [Attempt.run_get_bind, he.host]
    dsimp only
    by_cases hnamed : Named σ id m.name
    · rw [if_pos (hx.sound.any_iff.mpr hnamed)]
      exact others true he fun _ _ _ => .inr hnamed
    · obtain ⟨done, u, hrun, he', hdone⟩ :=
        run_addMember_again hi hx he owner (hm m (by simp)) hnamed
      rw [if_neg (mt hx.sound.any_iff.mp hnamed), Attempt.run_bind_ok hrun]
      exact others done he' hdone

theorem run_completeAt_again (hi : i.info.Indexed) (hx : i.Exhausted σ) (he : i.Echoes σ.session t)
    {id : StructId} {o : Ordinal} {layout : List MemberLayout} (ho : i.Owned σ d id o layout)
    (hinspected : ∀ m ∈ layout, i.Inspected σ id m) :
    ∃ complete u, (i.completeAt d.offset).run.run t = (.ok complete, u) ∧
      i.Echoes σ.session u ∧ (complete = true → ∀ m ∈ layout, Present σ id m) := by
  obtain ⟨complete, u, hrun, he', hcomplete⟩ :=
    run_completeStruct_again hi hx he d.offset hinspected
  refine ⟨complete, u, ?_, he', hcomplete⟩
  have hstruct := ho.structOf hx.sound he.host (he.typeAt ho.type)
  unfold completeAt
  simp only [ho.at_, ho.reads, Attempt.read, pure_bind]
  rw [Attempt.run_bind_ok (run_ask hstruct)]
  exact hrun

/-- A member whose type will never be there is taken for one of its name that is there. -/
theorem Exhausted.repeatsName (hx : i.Exhausted σ) {id : StructId} {o : Ordinal}
    {layout : List MemberLayout} (ho : i.Owned σ d id o layout) {m : MemberLayout} (hm : m ∈ layout)
    {y : UInt64} (hy : m.typeOffset = some y) (hbarred : i.Barred σ y) (hpresent : Present σ id m) :
    d.RepeatsName := by
  obtain ⟨T, hT, hvain⟩ := hx.barred hbarred
  have htypeless (o : Ordinal) : ¬ σ.session.TypeAt y o := by
    rintro ⟨pending, htype⟩
    rw [hvain.typeless hT] at htype
    cases htype
  rcases hpresent y hy with ⟨o', htype⟩ | ⟨def_, hget, member, hmember, hname⟩
  · exact absurd htype (htypeless o')
  · -- the member of that name came from another line of the layout, as its type is there
    obtain ⟨d', def', hat, hget', hdepicts⟩ := hx.attributed.made ho.made
    rw [ho.at_] at hat
    cases hat
    rw [hget] at hget'
    cases hget'
    obtain ⟨layout', hlayout, hmembers⟩ := hdepicts.members
    rw [ho.reads] at hlayout
    cases hlayout
    obtain ⟨l, hl, hlname, -, z, o', hz, htype⟩ := hmembers member hmember
    refine ⟨layout, ho.reads, l, hl, m, hm, hlname.trans hname, fun heq => ?_⟩
    rw [hz, hy] at heq
    cases heq
    exact htypeless o' htype

theorem Echoes.repair (hi : i.info.Indexed) (hx : i.Exhausted σ) (he : i.Echoes σ.session t)
    {x : UInt64} {o : Ordinal} (htype : σ.session.cache.type? x = some (o, true)) :
    i.Echoes σ.session ((i.repair x).run t).2 := by
  obtain ⟨d, id, layout, rfl, ho, hinspected, m, hm, y, hy, hbarred⟩ := hx.pending htype
  obtain ⟨complete, u, hrun, he', hcomplete⟩ := run_completeAt_again hi hx he ho hinspected
  unfold Importer.repair
  rw [StateT.run_bind]
  change i.Echoes σ.session ((do
    let p ← (i.completeAt d.offset).run.run t
    _) : Id (PUnit × Session)).2
  rw [hrun]
  cases complete with
  | true =>
    have hrepeats := hx.repeatsName ho hm hy hbarred (hcomplete rfl m hm)
    exact ⟨he'.host, he'.resolving, he'.cache.clearPending htype ho.at_ hrepeats⟩
  | false => exact he'.note _ _

theorem Echoes.runSecondPass (hi : i.info.Indexed) (hx : i.Exhausted σ)
    (he : i.Echoes σ.session t) : i.Echoes σ.session (i.runSecondPass.run t).2 := by
  have hall : i.Echoes σ.session ((t.cache.pending.forM i.repair).run t).2 := by
    refine Step.forM_keeps (fun x hpending s hs => ?_) he
    obtain ⟨o, htype⟩ := OffsetCache.mem_pending.mp hpending
    exact hs.repair hi hx (he.cache.pending htype)
  exact hall

/-! ## Entries that are walked over again -/

theorem Echoes.visitOnce (hx : i.Exhausted σ) (he : i.Echoes σ.session t) (phase : Phase)
    (hd : i.info.Walks d) : ((i.visitOnce phase d).run t).2 = t := by
  have hhas := he.cache.has (hx.walked d hd)
  unfold Importer.visitOnce
  rw [StateT.run_bind, StateT.run_get, pure_bind]
  simp only [hhas]
  rfl

theorem Echoes.countUnit (he : i.Echoes s t) (phase : Phase) (f : Stats → Stats) :
    i.Echoes s ((countUnit phase f).run t).2 := by
  cases phase with
  | types => exact he.note _ _
  | frames => exact he

theorem Echoes.visitUnit (hx : i.Exhausted σ) (he : i.Echoes σ.session t) (phase : Phase)
    {slot : DebugInfo.Slot} (hslot : slot ∈ i.info.units) :
    i.Echoes σ.session ((i.visitUnit phase slot).run t).2 := by
  unfold Importer.visitUnit
  split
  · exact (he.note t.stats _).countUnit phase _
  · rename_i u hu
    rw [StateT.run_bind]
    refine Step.forM_keeps (fun d hd s hs => ?_) (he.countUnit phase _)
    rw [hs.visitOnce hx phase ⟨slot, hslot, u, hu, hd⟩]
    exact hs

theorem Echoes.visitUnits (hx : i.Exhausted σ) (he : i.Echoes σ.session t) (phase : Phase) :
    i.Echoes σ.session ((i.visitUnits phase).run t).2 :=
  Step.forM_keeps (fun _ hslot _ hs => hs.visitUnit hx phase (by simpa using hslot)) he

/-- A second run of all passes only revises the cache. -/
theorem Exhausted.echoes (hi : i.info.Indexed) (hx : i.Exhausted σ) :
    i.Echoes σ.session
      (i.performAll [.runTypes, .runSecondPass, .runFrames] σ.session) :=
  (((Echoes.refl i _).visitUnits hx .types).runSecondPass hi hx).visitUnits hx .frames

end Importer

end DebugSymbols
