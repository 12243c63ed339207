import DebugSymbols.Proofs.Import.Keeping
import DebugSymbols.Proofs.Import.Visits
import Mathlib.Data.Set.Finite.Lattice

/-!
What handlers ask for.  A handler depends on the resolver no further than it asks
(`run_describe_congr`), and it asks finitely often, so finitely many visits are made in the course
of any (`finite_includes`).
-/

namespace DebugSymbols

namespace Importer

variable {i : Importer} {resolve resolve' : Resolver} {d : Die} {s : Session}

/-! ## All that is asked for -/

theorem run_bind_congr {α β : Type} {m m' : Attempt α} {f f' : α → Attempt β}
    (hm : m'.run.run s = m.run.run s)
    (hf : ∀ a t, m.run.run s = (.ok a, t) → (f' a).run.run t = (f a).run.run t) :
    (m' >>= f').run.run s = (m >>= f).run.run s := by
  rw [ExceptT.run_bind, ExceptT.run_bind, StateT.run_bind, StateT.run_bind, hm]
  cases hrun : m.run.run s with
  | mk result t =>
    cases result with
    | error e => rfl
    | ok a => exact hf a t hrun

theorem run_lift_congr {α : Type} {m m' : Step α} (h : m'.run s = m.run s) :
    (liftM m' : Attempt α).run.run s = (liftM m : Attempt α).run.run s := by
  cases hrun : m.run s with
  | mk a t => rw [Attempt.run_lift hrun, Attempt.run_lift (h.trans hrun)]

theorem run_onTarget_congr
    (h : ∀ y, d.reference? .type = .ok (some y) → (resolve' y).run s = (resolve y).run s)
    (f : Ordinal → Attempt Ordinal) :
    (i.onTarget resolve' d f).run.run s = (i.onTarget resolve d f).run.run s := by
  refine run_bind_congr ?_ fun _ _ _ => rfl
  unfold target
  cases hreference : d.reference? .type with
  | error e => rfl
  | ok reference =>
    cases reference with
    | none => rfl
    | some y => exact run_lift_congr (h y hreference)

/-- Members are added alike if the types of each are, where the ones before it have been added. -/
theorem run_addMembers_congr {owner : UInt64} {id : StructId} {layout : List MemberLayout}
    (h : ∀ before m after y complete t, layout = before ++ m :: after → m.typeOffset = some y →
      (addMembers resolve owner id before).run.run s = (.ok complete, t) →
      (resolve' y).run t = (resolve y).run t) :
    (addMembers resolve' owner id layout).run.run s =
      (addMembers resolve owner id layout).run.run s := by
  induction layout generalizing s with
  | nil => rfl
  | cons m rest ih =>
    unfold addMembers
    refine run_bind_congr ?_ fun first t hfirst => run_bind_congr ?_ fun _ _ _ => rfl
    · unfold addMember
      cases hy : m.typeOffset with
      | none => rfl
      | some y =>
        exact run_bind_congr (run_lift_congr (h [] m rest y true s rfl hy rfl)) fun _ _ _ => rfl
    · refine ih fun before m' after y complete u hlayout hy hbefore => ?_
      refine h (m :: before) m' after y (first && complete) u (by rw [hlayout]; rfl) hy ?_
      unfold addMembers
      rw [Attempt.run_bind_ok hfirst, Attempt.run_bind_ok hbefore]
      rfl

theorem run_recordType_congr (htag : d.tag.isRecord = true)
    (h : ∀ y t, i.Asks resolve d s y t → (resolve' y).run t = (resolve y).run t) :
    (i.recordType resolve' d).run.run s = (i.recordType resolve d).run.run s := by
  cases hdeclaration : d.isDeclaration with
  | error e =>
    unfold recordType
    rw [hdeclaration]
    exact run_bind_congr rfl fun _ _ h => by cases h
  | ok declared =>
    cases declared with
    | true => simp only [recordType, hdeclaration, Attempt.read, pure_bind, if_true]
    | false =>
      have hdef : d.DefinesRecord := ⟨htag, hdeclaration⟩
      cases hlayout : d.layout with
      | error e =>
        simp only [recordType, hdeclaration, hlayout, Attempt.read, pure_bind,
          Bool.false_eq_true, if_false]
        exact run_bind_congr rfl fun _ _ h => by cases h
      | ok layout =>
        rw [recordType_eq hdef hlayout, recordType_eq hdef hlayout]
        refine run_bind_congr rfl fun found t hrecord => ?_
        obtain ⟨id, existed⟩ := found
        dsimp only
        rw [Attempt.run_ask_bind, Attempt.run_ask_bind]
        cases t.structOrdinal id with
        | error e => rfl
        | ok ordinal =>
          cases existed with
          | true => rfl
          | false =>
            refine run_bind_congr (run_addMembers_congr ?_) fun _ _ _ => rfl
            intro before m after y complete u heq hy hbefore
            exact h y u (.member hdef (heq ▸ hlayout) hy hrecord hbefore)

/-- A handler does the same with another resolver if that answers the same where it is asked. -/
theorem run_describe_congr
    (h : ∀ y t, i.Asks resolve d s y t → (resolve' y).run t = (resolve y).run t) :
    (i.describe resolve' d).run.run s = (i.describe resolve d).run.run s := by
  have htarget (hmodifier : d.tag.isModifier = true)
      (hname : d.tag = .typedef → ∃ name, d.name = .ok name) (f : Ordinal → Attempt Ordinal) :
      (i.onTarget resolve' d f).run.run s = (i.onTarget resolve d f).run.run s :=
    run_onTarget_congr (fun y hy => h y s (.target ⟨hmodifier, hy⟩ hname)) f
  unfold describe
  split
  · rfl
  · rfl
  · rfl
  · exact htarget (by simp_all [Tag.isModifier]) (by simp_all) _
  · exact htarget (by simp_all [Tag.isModifier]) (by simp_all) _
  · exact htarget (by simp_all [Tag.isModifier]) (by simp_all) _
  · unfold typedefType
    cases hname : d.name with
    | error e => rfl
    | ok name => exact htarget (by simp_all [Tag.isModifier]) (fun _ => ⟨name, hname⟩) _
  · unfold arrayType
    split
    · rfl
    · exact htarget (by simp_all [Tag.isModifier]) (by simp_all) _
  · exact run_recordType_congr (isRecord_iff.mpr (.inl ‹_›)) h
  · exact run_recordType_congr (isRecord_iff.mpr (.inr ‹_›)) h
  · exact htarget (by simp_all [Tag.isModifier]) (by simp_all) _
  · rfl

/-! ## Finitely many visits -/

theorem subsingleton_target (d : Die) (s : Session) :
    {p : UInt64 × Session | d.Modifies p.1 ∧ p.2 = s}.Subsingleton := by
  rintro ⟨y, t⟩ ⟨hy, rfl⟩ ⟨y', t'⟩ ⟨hy', rfl⟩
  have heq := hy.2.symm.trans hy'.2
  cases heq
  rfl

/-- What is asked for after so many members have been added. -/
def memberAsked (i : Importer) (resolve : Resolver) (d : Die) (s : Session)
    (layout : List MemberLayout) (k : Nat) : Set (UInt64 × Session) :=
  {p | ∃ before m after id complete t, layout = before ++ m :: after ∧ before.length = k ∧
    m.typeOffset = some p.1 ∧ (i.recordFor d).run.run s = (.ok (id, false), t) ∧
    (addMembers resolve d.offset id before).run.run t = (.ok complete, p.2)}

theorem subsingleton_memberAsked (layout : List MemberLayout) (k : Nat) :
    (i.memberAsked resolve d s layout k).Subsingleton := by
  rintro ⟨y, u⟩ ⟨before, m, after, id, complete, t, hsplit, hlength, hy, hrecord, hadded⟩ ⟨y', u'⟩
    ⟨before', m', after', id', complete', t', hsplit', hlength', hy', hrecord', hadded'⟩
  obtain ⟨rfl, hrest⟩ := List.append_inj (hsplit.symm.trans hsplit') (hlength.trans hlength'.symm)
  cases hrest
  cases hy.symm.trans hy'
  cases hrecord.symm.trans hrecord'
  cases hadded.symm.trans hadded'
  rfl

theorem finite_asks (i : Importer) (resolve : Resolver) (d : Die) (s : Session) :
    {p : UInt64 × Session | i.Asks resolve d s p.1 p.2}.Finite := by
  cases hlayout : d.layout with
  | error e =>
    refine (subsingleton_target d s).finite.subset ?_
    rintro ⟨y, t⟩ hasks
    cases hasks with
    | target hy => exact ⟨hy, rfl⟩
    | member _ hlayout' => cases hlayout.symm.trans hlayout'
  | ok layout =>
    have hmembers : (⋃ k ∈ {k | k < layout.length},
        i.memberAsked resolve d s layout k).Finite :=
      (Set.finite_lt_nat layout.length).biUnion fun k _ =>
        (subsingleton_memberAsked layout k).finite
    refine ((subsingleton_target d s).finite.union hmembers).subset ?_
    rintro ⟨y, t⟩ hasks
    cases hasks with
    | target hy => exact .inl ⟨hy, rfl⟩
    | @member id before after m complete t u hdef hlayout' hy hrecord hbefore =>
      cases hlayout.symm.trans hlayout'
      refine .inr (Set.mem_biUnion (show before.length < (before ++ m :: after).length by simp) ?_)
      exact ⟨before, m, after, id, complete, t, rfl, rfl, hy, hrecord, hbefore⟩

end Importer

open Importer

/-- Each level is one less than the one before, and there are finitely many visits on each. -/
theorem Visit.finite_includes (i : Importer) (v : Visit) : {w | v.Includes i w}.Finite := by
  obtain ⟨levels, d, s⟩ := v
  induction levels generalizing d s with
  | zero =>
    refine (Set.finite_singleton (Visit.mk 0 d s)).subset ?_
    intro w hw
    cases hw with
    | refl => rfl
    | nested _ hlevels => cases hlevels
  | succ levels ih =>
    let asked := {p : UInt64 × Session |
      i.Asks (i.resolveWith (i.resolveDie levels)) d (entered s d.offset) p.1 p.2}
    have hfound (p : UInt64 × Session) : {e | i.info.dieAt p.1 = .ok e}.Subsingleton := by
      intro e he e' he'
      cases he.symm.trans he'
      rfl
    have hnested : (⋃ p ∈ asked, ⋃ e ∈ {e | i.info.dieAt p.1 = .ok e},
        {w | Visit.Includes i ⟨levels, e, p.2⟩ w}).Finite :=
      (finite_asks i _ d _).biUnion fun p _ => (hfound p).finite.biUnion fun e _ => ih e p.2
    refine ((Set.finite_singleton (Visit.mk (levels + 1) d s)).union hnested).subset ?_
    intro w hw
    cases hw with
    | refl => exact .inl rfl
    | @nested _ _ levels' e y t _ hlevels hasks _ _ hat hw =>
      cases hlevels
      exact .inr (Set.mem_biUnion (x := (y, t)) hasks (Set.mem_biUnion hat hw))

end DebugSymbols
