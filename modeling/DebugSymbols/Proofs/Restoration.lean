import DebugSymbols.Proofs.CacheHistory
import DebugSymbols.Proofs.Dwarf.Placement
import Mathlib.Data.List.Induction

/-!
What a blob from anywhere is restored to.  `CacheBlob.Restores` says why a blob is rejected and,
if it is not, what the cache knows then: of each offset what its entries say (`classAt`), and of
each ordinal the origin that is recorded for it or suggested by the entries (`Indexes`).

Main statement: `ofBytes_eq_iff`.
-/

namespace DebugSymbols

namespace CacheBlob

/-! ## What the records say -/

/-- The class that an entry is recorded with, if the kind is known. -/
def Entry.class? (e : Entry) : Option Classification :=
  match e.kind with
  | 0 => some .useless
  | 1 => some (.type ⟨e.ordinal⟩ e.pending)
  | 2 => some .placed
  | _ => none

/-- The first class that is not useless; useless if there is nothing else. -/
def settled (listed : List Classification) : Option Classification :=
  (listed.find? (· ≠ .useless)).or listed.head?

/-- The class of an offset, if there is an entry for it. -/
def classAt (entries : List Entry) (x : UInt64) : Option Classification :=
  settled ((entries.filter (·.offset = x)).filterMap Entry.class?)

/-- The entry at a place of the list makes its offset a type of the ordinal: none before it says
anything else than that the offset is useless. -/
def Establishes (entries : List Entry) (k : Nat) (o : Ordinal) (x : UInt64) : Prop :=
  (∃ e pending, entries[k]? = some e ∧ e.offset = x ∧ e.class? = some (.type o pending)) ∧
    ∀ e ∈ entries.take k, e.offset = x → e.class? = some .useless

/-- The first entry that makes its offset a type of the ordinal. -/
def EstablishesFirst (entries : List Entry) (o : Ordinal) (x : UInt64) : Prop :=
  ∃ k, Establishes entries k o x ∧ ∀ j < k, ∀ y, ¬ Establishes entries j o y

/-- The recorded origin is a type of its ordinal. -/
def Origin.isTypeIn (entries : List Entry) (r : Origin) : Bool :=
  match classAt entries r.offset with
  | some (.type o _) => o.val = r.ordinal
  | _ => false

/-- The origin of an ordinal is the last one that is recorded for it, or else the first entry that
made its offset a type of the ordinal. -/
def Indexes (b : CacheBlob) (o : Ordinal) (x : UInt64) : Prop :=
  match b.origins.reverse.find? (·.ordinal = o.val) with
  | some r => r.offset = x
  | none => EstablishesFirst b.entries o x

/-- What restoring a blob comes to. -/
inductive Restores (b : CacheBlob) : Except OffsetCache.Error OffsetCache → Prop
  | badVersion : b.version ≠ 1 → Restores b (.error (.badVersion b.version))
  | badKind {e : Entry} :
      b.version = 1 → b.entries.find? (·.class? = none) = some e →
      Restores b (.error (.badKind e.offset e.kind))
  | badOrigin {r : Origin} :
      b.version = 1 → b.entries.find? (·.class? = none) = none →
      b.origins.find? (!·.isTypeIn b.entries) = some r →
      Restores b (.error (.badOrigin ⟨r.ordinal⟩ r.offset))
  | restored {c : OffsetCache} :
      b.version = 1 → b.entries.find? (·.class? = none) = none →
      b.origins.find? (!·.isTypeIn b.entries) = none →
      (∀ x, c.get? x = classAt b.entries x) → (∀ o x, c.typeOffset? o = some x ↔ b.Indexes o x) →
      Restores b (.ok c)

/-! ## One entry more -/

/-- What one class more makes of the class of an offset. -/
def improve : Option Classification → Classification → Classification
  | none, cl | some .useless, cl => cl
  | some other, _ => other

/-- As long as nothing else is said than that an offset is useless, it can be improved. -/
theorem settled_iff {listed : List Classification} :
    settled listed = none ∨ settled listed = some .useless ↔ ∀ cl ∈ listed, cl = .useless := by
  unfold settled
  cases hfind : listed.find? (· ≠ .useless) with
  | some cl =>
    have hne : cl ≠ .useless := by simpa using List.find?_some hfind
    simp only [Option.some_or, reduceCtorEq, Option.some.injEq, false_or]
    exact ⟨fun h => absurd h hne, fun h => h cl (List.mem_of_find?_eq_some hfind)⟩
  | none =>
    have hall : ∀ cl ∈ listed, cl = .useless := by simpa using hfind
    refine iff_of_true ?_ hall
    cases listed with
    | nil => exact .inl rfl
    | cons cl rest => exact .inr (congrArg some (hall cl List.mem_cons_self))

theorem settled_append (listed : List Classification) (cl : Classification) :
    settled (listed ++ [cl]) = some (improve (settled listed) cl) := by
  unfold settled
  rw [List.find?_append]
  cases hfind : listed.find? (· ≠ .useless) with
  | some other =>
    have hne : other ≠ .useless := by simpa using List.find?_some hfind
    cases other <;> simp_all [improve]
  | none =>
    have hall : ∀ cl ∈ listed, cl = .useless := by simpa using hfind
    cases listed with
    | nil => cases cl <;> simp [improve]
    | cons first rest =>
      rw [hall first List.mem_cons_self]
      cases cl <;> simp [improve]

variable {entries : List Entry} {e : Entry} {cl : Classification} {x : UInt64}

theorem classAt_append (he : e.class? = some cl) :
    classAt (entries ++ [e]) x =
      if x = e.offset then some (improve (classAt entries x) cl) else classAt entries x := by
  unfold classAt
  rw [List.filter_append, List.filterMap_append]
  by_cases hx : x = e.offset
  · rw [if_pos hx, ← settled_append]
    simp [hx, he]
  · simp [Ne.symm hx, hx]

/-- Nothing else is said about an offset just if all its entries call it useless. -/
theorem classAt_iff (hknown : ∀ e ∈ entries, e.class? ≠ none) :
    classAt entries x = none ∨ classAt entries x = some .useless ↔
      ∀ e ∈ entries, e.offset = x → e.class? = some .useless := by
  unfold classAt
  rw [settled_iff]
  simp only [List.mem_filterMap, List.mem_filter, decide_eq_true_eq, forall_exists_index, and_imp]
  constructor
  · intro h e he hx
    obtain ⟨cl, hcl⟩ := Option.ne_none_iff_exists'.mp (hknown e he)
    rw [hcl, h cl e he hx hcl]
  · intro h cl e he hx hcl
    exact Option.some.inj (hcl.symm.trans (h e he hx))

end CacheBlob

namespace OffsetCache

open CacheBlob

variable {entries : List CacheBlob.Entry} {c : OffsetCache} {o : Ordinal} {x : UInt64}

/-! ## Restoring the entries -/

/-- The edit that an entry asks for. -/
def editOf (e : CacheBlob.Entry) : Edit :=
  match e.class? with
  | some (.type o pending) => .markType e.offset o pending
  | some .placed => .markPlaced e.offset
  | _ => .markUseless e.offset

theorem restoreEntry_known {e : CacheBlob.Entry} (he : e.class? ≠ none) (c : OffsetCache) :
    c.restoreEntry e = .ok (c.edit (editOf e)) := by
  unfold CacheBlob.Entry.class? at he
  unfold restoreEntry editOf CacheBlob.Entry.class?
  split <;> simp_all [edit]

theorem restoreEntry_unknown {e : CacheBlob.Entry} (he : e.class? = none) (c : OffsetCache) :
    c.restoreEntry e = .error (.badKind e.offset e.kind) := by
  unfold CacheBlob.Entry.class? at he
  unfold restoreEntry
  split <;> simp_all

theorem foldlM_restoreEntry (hknown : ∀ e ∈ entries, e.class? ≠ none) (c : OffsetCache) :
    entries.foldlM restoreEntry c = .ok ((entries.map editOf).foldl edit c) := by
  induction entries generalizing c with
  | nil => rfl
  | cons e rest ih =>
    rw [List.foldlM_cons, restoreEntry_known (hknown e List.mem_cons_self)]
    exact ih (fun e he => hknown e (List.mem_cons_of_mem _ he)) _

theorem get?_edit_editOf {e : CacheBlob.Entry} {cl : Classification} (he : e.class? = some cl) :
    (c.edit (editOf e)).get? x =
      if x = e.offset then some (improve (c.get? x) cl) else c.get? x := by
  by_cases hx : x = e.offset
  · subst hx
    rw [if_pos rfl]
    cases cl with
    | useless =>
      simp only [editOf, he, edit, get?_markUseless, if_pos]
      rcases c.get? e.offset with - | - | - | - <;> rfl
    | type o pending =>
      simp only [editOf, he, edit, get?_markType, isOpen, true_and]
      rcases c.get? e.offset with - | - | - | - <;> rfl
    | placed =>
      simp only [editOf, he, edit, get?_markPlaced, isOpen, true_and]
      rcases c.get? e.offset with - | - | - | - <;> rfl
  · rw [if_neg hx]
    cases cl with
    | useless => simp [editOf, he, edit, get?_markUseless, hx]
    | type o pending => simp [editOf, he, edit, get?_markType, hx]
    | placed => simp [editOf, he, edit, get?_markPlaced, hx]

/-- The first entry of an offset that is not useless counts. -/
theorem get?_ofEdits (hknown : ∀ e ∈ entries, e.class? ≠ none) (x : UInt64) :
    (ofEdits (entries.map editOf)).get? x = classAt entries x := by
  induction entries using List.reverseRecOn with
  | nil => rfl
  | append_singleton entries e ih =>
    have hknown' : ∀ e ∈ entries, e.class? ≠ none :=
      fun e he => hknown e (List.mem_append_left _ he)
    obtain ⟨cl, hcl⟩ := Option.ne_none_iff_exists'.mp (hknown e (by simp))
    rw [List.map_append, ofEdits_append, List.map_singleton, List.foldl_cons, List.foldl_nil,
      get?_edit_editOf hcl, classAt_append hcl, ih hknown']

theorem editOf_eq_markType {e : CacheBlob.Entry} {pending : Bool} :
    editOf e = .markType x o pending ↔ e.offset = x ∧ e.class? = some (.type o pending) := by
  unfold editOf
  rcases e.class? with - | - | - | - <;> simp

theorem registers_iff (hknown : ∀ e ∈ entries, e.class? ≠ none) (k : Nat) (o : Ordinal)
    (x : UInt64) : Registers (entries.map editOf) k o x ↔ Establishes entries k o x := by
  have htake : ∀ e ∈ entries.take k, e.class? ≠ none :=
    fun e he => hknown e (List.mem_of_mem_take he)
  unfold Registers Establishes
  rw [isOpen_iff, ← List.map_take, get?_ofEdits htake, classAt_iff htake, and_comm,
    List.getElem?_map]
  refine and_congr_left fun _ => ?_
  simp only [Option.map_eq_some_iff, editOf_eq_markType]
  exact ⟨fun ⟨pending, e, hk, hx, hcl⟩ => ⟨e, pending, hk, hx, hcl⟩,
    fun ⟨e, pending, hk, hx, hcl⟩ => ⟨pending, e, hk, hx, hcl⟩⟩

theorem typeOffset?_entries (hknown : ∀ e ∈ entries, e.class? ≠ none) (o : Ordinal) (x : UInt64) :
    (ofEdits (entries.map editOf)).typeOffset? o = some x ↔ EstablishesFirst entries o x := by
  rw [typeOffset?_ofEdits]
  simp only [RegistersFirst, EstablishesFirst, registers_iff hknown]

/-! ## Restoring the origins -/

variable {origins : List CacheBlob.Origin} {r : CacheBlob.Origin}

/-- Recorded origins do not change classes, so each is checked against the entries. -/
theorem restoreOrigin_eq (hc : ∀ x, c.get? x = classAt entries x) (r : CacheBlob.Origin) :
    c.restoreOrigin r =
      if r.isTypeIn entries then .ok { c with origins := c.origins.insert r.ordinal r.offset }
      else .error (.badOrigin ⟨r.ordinal⟩ r.offset) := by
  unfold restoreOrigin type? CacheBlob.Origin.isTypeIn
  rw [hc]
  rcases classAt entries r.offset with - | - | - | - <;> simp

/-- The cache with the recorded origins instead of those that the entries suggest. -/
def withOrigins (c : OffsetCache) (origins : List CacheBlob.Origin) : OffsetCache :=
  { c with origins := origins.foldl (fun m r => m.insert r.ordinal r.offset) c.origins }

theorem foldlM_restoreOrigin (hc : ∀ x, c.get? x = classAt entries x)
    (hall : ∀ r ∈ origins, r.isTypeIn entries = true) :
    origins.foldlM restoreOrigin c = .ok (c.withOrigins origins) := by
  induction origins generalizing c with
  | nil => rfl
  | cons r rest ih =>
    rw [List.foldlM_cons, restoreOrigin_eq hc, if_pos (hall r List.mem_cons_self)]
    exact ih (c := { c with origins := _ }) hc fun r hr => hall r (List.mem_cons_of_mem _ hr)

theorem typeOffset?_withOrigins (c : OffsetCache) (origins : List CacheBlob.Origin) (o : Ordinal) :
    (c.withOrigins origins).typeOffset? o =
      ((origins.reverse.find? (·.ordinal = o.val)).map (·.offset)).or (c.typeOffset? o) := by
  induction origins generalizing c with
  | nil => rfl
  | cons r rest ih =>
    have hrest := ih { c with origins := c.origins.insert r.ordinal r.offset }
    rw [List.reverse_cons, List.find?_append]
    refine hrest.trans ?_
    rw [typeOffset?_insert]
    have ho : o = ⟨r.ordinal⟩ ↔ r.ordinal = o.val := by
      cases o
      simp [eq_comm]
    by_cases h : r.ordinal = o.val
    · simp [h]
    · simp [ho, h]

/-! ## Restoring a blob -/

variable {b : CacheBlob}

theorem known_of_find? (h : entries.find? (·.class? = none) = none) :
    ∀ e ∈ entries, e.class? ≠ none := by
  simpa using h

theorem ofBlob_current (hversion : b.version = 1) :
    ofBlob b = b.entries.foldlM restoreEntry empty >>= b.origins.foldlM restoreOrigin :=
  if_pos hversion

/-- Nothing is looked at behind the record that is rejected. -/
theorem foldlM_rejected {α β ε : Type} {f : β → α → Except ε β} {before after : List α} {a : α}
    {init m : β} {e : ε} (hok : before.foldlM f init = .ok m) (herr : f m a = .error e) :
    (before ++ a :: after).foldlM f init = .error e := by
  rw [List.foldlM_append, hok]
  change (a :: after).foldlM f m = _
  rw [List.foldlM_cons, herr]
  rfl

theorem typeOffset?_restored (hknown : ∀ e ∈ b.entries, e.class? ≠ none) (o : Ordinal)
    (x : UInt64) :
    ((ofEdits (b.entries.map editOf)).withOrigins b.origins).typeOffset? o = some x ↔
      b.Indexes o x := by
  rw [typeOffset?_withOrigins, Indexes]
  cases b.origins.reverse.find? (·.ordinal = o.val) with
  | some r => simp
  | none => simpa using typeOffset?_entries hknown o x

/-- A cache is known by what it answers. -/
theorem eq_of_answers {c d : OffsetCache} (hget : ∀ x, c.get? x = d.get? x)
    (hindex : ∀ o x, c.typeOffset? o = some x ↔ d.typeOffset? o = some x) : c = d :=
  OffsetCache.ext hget fun n => Option.ext (hindex ⟨n⟩)

theorem ofBlob_of_restores {r : Except Error OffsetCache} (h : b.Restores r) : ofBlob b = r := by
  cases h with
  | badVersion hversion => exact if_neg hversion
  | badKind hversion hfind =>
    obtain ⟨hunknown, before, after, hentries, hbefore⟩ :=
      List.find?_eq_some_iff_append.mp hfind
    have hknown : ∀ e ∈ before, e.class? ≠ none := by simpa using hbefore
    rw [ofBlob_current hversion, hentries,
      foldlM_rejected (foldlM_restoreEntry hknown empty)
        (restoreEntry_unknown (of_decide_eq_true hunknown) _)]
    rfl
  | @badOrigin r hversion hnone hfind =>
    have hknown := known_of_find? hnone
    have hclass := get?_ofEdits hknown
    obtain ⟨hbad, before, after, horigins, hbefore⟩ := List.find?_eq_some_iff_append.mp hfind
    have hall : ∀ r ∈ before, r.isTypeIn b.entries = true := by simpa using hbefore
    have hrejected := restoreOrigin_eq (c := (ofEdits (b.entries.map editOf)).withOrigins before)
      hclass r
    rw [if_neg (by simpa using hbad)] at hrejected
    rw [ofBlob_current hversion, foldlM_restoreEntry hknown, horigins]
    exact foldlM_rejected (foldlM_restoreOrigin hclass hall) hrejected
  | restored hversion hnone hall hclass hindex =>
    have hknown := known_of_find? hnone
    have hclass' := get?_ofEdits hknown
    have horigins : ∀ r ∈ b.origins, r.isTypeIn b.entries = true := by simpa using hall
    rw [ofBlob_current hversion, foldlM_restoreEntry hknown]
    refine (foldlM_restoreOrigin hclass' horigins).trans (congrArg _ (eq_of_answers ?_ ?_))
    · exact fun x => (hclass' x).trans (hclass x).symm
    · exact fun o x => (typeOffset?_restored hknown o x).trans (hindex o x).symm

theorem exists_restores (b : CacheBlob) : ∃ r, b.Restores r := by
  by_cases hversion : b.version = 1
  · cases hkind : b.entries.find? (·.class? = none) with
    | some e => exact ⟨_, .badKind hversion hkind⟩
    | none =>
      cases horigin : b.origins.find? (!·.isTypeIn b.entries) with
      | some r => exact ⟨_, .badOrigin hversion hkind horigin⟩
      | none =>
        have hknown := known_of_find? hkind
        exact ⟨.ok ((ofEdits (b.entries.map editOf)).withOrigins b.origins),
          .restored hversion hkind horigin (get?_ofEdits hknown) (typeOffset?_restored hknown)⟩
  · exact ⟨_, .badVersion hversion⟩

/-- Restoring bytes that can be decoded comes to what the records say, and to nothing else.  In
whatever cache this gives, every origin is a type of its ordinal, and every type has an origin. -/
theorem ofBytes_eq_iff {bytes : List UInt8} {b : CacheBlob}
    (hdecode : CacheBlob.decode bytes = some b) :
    (∀ r, ofBytes bytes = r ↔ b.Restores r) ∧
      ∀ c, ofBytes bytes = .ok c →
        (∀ o x, c.typeOffset? o = some x → ∃ pending, c.type? x = some (o, pending)) ∧
        ∀ x o pending, c.type? x = some (o, pending) → ∃ y, c.typeOffset? o = some y := by
  have hbytes : ofBytes bytes = ofBlob b := by
    unfold ofBytes
    rw [hdecode]
  refine ⟨fun r => ?_, fun c hc => ?_⟩
  · rw [hbytes]
    refine ⟨fun hr => ?_, ofBlob_of_restores⟩
    obtain ⟨r', hr'⟩ := exists_restores b
    rw [← hr, ofBlob_of_restores hr']
    exact hr'
  · have hconsistent := (good_of_ofBytes hc).1
    exact ⟨fun o x => hconsistent.origin, fun x o pending => hconsistent.indexed⟩

/-- The offset 5 is recorded three times, 18 as a type once it was placed, and 7 has two origins. -/
def repeating : CacheBlob where
  version := 1
  entries := [⟨5, 0, 0, false⟩, ⟨5, 1, 7, true⟩, ⟨5, 1, 8, false⟩, ⟨9, 1, 7, false⟩,
    ⟨18, 2, 0, false⟩, ⟨18, 1, 6, false⟩, ⟨21, 1, 6, true⟩, ⟨12, 1, 6, false⟩]
  origins := [⟨7, 5⟩, ⟨7, 9⟩]

/-- The ordinal 8 is shadowed and unknown, 6 comes from its first accepted entry, and 7 from the
last origin that is recorded. -/
theorem ofBytes_eq_iff_repeating :
    CacheBlob.decode repeating.encode = some repeating ∧
      ∃ c, ofBytes repeating.encode = .ok c ∧ repeating.Restores (.ok c) ∧
        c.get? 5 = some (.type ⟨7⟩ true) ∧ c.get? 18 = some .placed ∧
        c.typeOffset? ⟨6⟩ = some 21 ∧ c.typeOffset? ⟨7⟩ = some 9 ∧ c.typeOffset? ⟨8⟩ = none ∧
        ∃ pending, c.type? 9 = some (⟨7⟩, pending) := by
  have hdecode : CacheBlob.decode repeating.encode = some repeating := by decide +kernel
  have hrun : (ofBytes repeating.encode).toOption.any (fun c =>
      decide (c.get? 5 = some (.type ⟨7⟩ true) ∧ c.get? 18 = some .placed ∧
        c.typeOffset? ⟨6⟩ = some 21 ∧ c.typeOffset? ⟨7⟩ = some 9 ∧
        c.typeOffset? ⟨8⟩ = none)) = true := by
    decide +kernel
  obtain ⟨c, hc, hanswers⟩ := Except.of_any_toOption hrun
  obtain ⟨hfive, hplaced, hsix, hseven, height⟩ := of_decide_eq_true hanswers
  obtain ⟨hrestores, hconsistent⟩ := ofBytes_eq_iff hdecode
  exact ⟨hdecode, c, hc, (hrestores _).mp hc, hfive, hplaced, hsix, hseven, height,
    (hconsistent c hc).1 _ _ hseven⟩

end OffsetCache

end DebugSymbols
