import DebugSymbols.Proofs.Import.Comparisons

/-!
What it means that two listings agree.  `agrees_iff` says it with finite maps: the first listing
stands for the map that gives a name the last value listed for it, and the second has to list
that map, each name once.  Everything else about comparisons follows from it: `agrees_spec` adds
that the order of pairs does not matter, that agreement is an equivalence of listings without
repeated names, and when it is that the second listing's failure comes through.
-/

namespace DebugSymbols.Listing

/-- The value of a name: the last that is listed for it. -/
def lastValue? (pairs : List (String × UInt64)) (name : String) : Option UInt64 :=
  pairs.reverse.lookup name

/-- Each pair of the second list finds its name, which no pair before it took away, with the last
value that the first list has for it. -/
def Drains (qs ps : List (String × UInt64)) : Prop :=
  (names qs).Nodup ∧ ∀ pair ∈ qs, lastValue? ps pair.1 = some pair.2

/-! ## Listings as finite maps -/

theorem lastValue?_cons (pair : String × UInt64) (rest : List (String × UInt64)) (name : String) :
    lastValue? (pair :: rest) name =
      (lastValue? rest name).or (if name = pair.1 then some pair.2 else none) := by
  rw [lastValue?, List.reverse_cons, List.lookup_append]
  congr 1
  rw [List.lookup_cons, List.lookup_nil]
  by_cases h : name = pair.1
  · rw [if_pos h, beq_iff_eq.mpr h]
  · rw [if_neg h, beq_false_of_ne h]

/-- Loading a list leaves each name with its last value. -/
theorem get?_foldl_insert_eq (pairs : List (String × UInt64)) (w : Working) (name : String) :
    (pairs.foldl (fun w (name, value) => w.insert name value) w).get? name =
      (lastValue? pairs name).or (w.get? name) := by
  induction pairs generalizing w with
  | nil => rfl
  | cons pair rest ih =>
    rw [List.foldl_cons, ih, lastValue?_cons, SortedMap.get?_insert]
    split <;> simp [*]

theorem mem_of_lastValue? {pairs : List (String × UInt64)} {name : String} {value : UInt64}
    (h : lastValue? pairs name = some value) : (name, value) ∈ pairs := by
  refine (mem_of_foldl_insert (w := .empty) ?_).resolve_right nofun
  rw [get?_foldl_insert_eq, h]
  rfl

/-- Without repeated names, a list says what its map says. -/
theorem lastValue?_eq_some {pairs : List (String × UInt64)} (hnodup : (names pairs).Nodup)
    {name : String} {value : UInt64} :
    lastValue? pairs name = some value ↔ (name, value) ∈ pairs := by
  refine ⟨mem_of_lastValue?, fun hmem => ?_⟩
  obtain ⟨value', hvalue'⟩ := Option.isSome_iff_exists.mp
    (get?_foldl_insert (w := .empty) (.inl (mem_names hmem)))
  rw [get?_foldl_insert_eq] at hvalue'
  have hlast : lastValue? pairs name = some value' := by simpa using hvalue'
  cases List.inj_on_of_nodup_map hnodup hmem (mem_of_lastValue? hlast) rfl
  exact hlast

theorem lastValue?_congr {ps qs : List (String × UInt64)} (hps : (names ps).Nodup)
    (hqs : (names qs).Nodup) (h : ∀ pair, pair ∈ ps ↔ pair ∈ qs) :
    lastValue? ps = lastValue? qs := by
  funext name
  refine Option.ext fun value => ?_
  rw [lastValue?_eq_some hps, lastValue?_eq_some hqs]
  exact h (name, value)

theorem names_nodup_of_perm {ps qs : List (String × UInt64)} (hps : (names ps).Nodup)
    (h : ps.Perm qs) : (names qs).Nodup :=
  (h.map _).nodup_iff.mp hps

/-- Lists without repeated names that stand for the same map have the same pairs. -/
theorem perm_of_lastValue? {ps qs : List (String × UInt64)} (hps : (names ps).Nodup)
    (hqs : (names qs).Nodup) (h : lastValue? ps = lastValue? qs) : ps.Perm qs := by
  refine (List.perm_ext_iff_of_nodup hps.of_map hqs.of_map).mpr fun ⟨name, value⟩ => ?_
  rw [← lastValue?_eq_some hps, ← lastValue?_eq_some hqs, h]

/-! ## Agreement -/

theorem agrees_eq {a : Listing} (ha : a.failure = none) (b : Listing) :
    a.agrees b = drain b.failure b.pairs
      (a.pairs.foldl (fun w (name, value) => w.insert name value) .empty) := by
  rw [agrees, load, ha]
  rfl

/-- Two listings agree if both can be read and the second lists the map of the first, each name
once. -/
theorem agrees_iff {a b : Listing} (ha : a.failure = none) :
    a.agrees b = .ok true ↔
      b.failure = none ∧ (names b.pairs).Nodup ∧ lastValue? b.pairs = lastValue? a.pairs := by
  rw [agrees_eq ha, drain_iff]
  refine and_congr_right fun _ => and_congr_right fun hnodup => ?_
  simp only [get?_foldl_insert_eq, SortedMap.get?_empty, Option.or_none,
    ← lastValue?_eq_some hnodup]
  exact ⟨fun h => funext fun name => Option.ext fun value => (h name value).symm,
    fun h name value => by rw [h]⟩

/-- Draining has a verdict unless the listing fails. -/
theorem drain_complete (pairs : List (String × UInt64)) (w : Working) :
    ∃ verdict, drain none pairs w = .ok verdict := by
  induction pairs generalizing w with
  | nil => exact ⟨_, rfl⟩
  | cons pair rest ih =>
    unfold drain
    split
    · exact ih _
    · exact ⟨false, rfl⟩

/-- Complete listings that agree in the same cases have the same verdict. -/
theorem agrees_congr {ps qs ps' qs' : List (String × UInt64)}
    (h : (complete ps).agrees (complete qs) = .ok true ↔
      (complete ps').agrees (complete qs') = .ok true) :
    (complete ps).agrees (complete qs) = (complete ps').agrees (complete qs') := by
  have hverdict (ps qs) : ∃ verdict, (complete ps).agrees (complete qs) = .ok verdict := by
    rw [agrees_eq rfl]
    exact drain_complete qs _
  obtain ⟨verdict, hleft⟩ := hverdict ps qs
  obtain ⟨verdict', hright⟩ := hverdict ps' qs'
  rw [hleft, hright] at h ⊢
  simpa using h

/-- Without repeated names, complete listings agree if they have the same pairs. -/
theorem agrees_iff_perm {ps qs : List (String × UInt64)} (hps : (names ps).Nodup) :
    (complete ps).agrees (complete qs) = .ok true ↔ ps.Perm qs := by
  rw [agrees_iff rfl]
  refine ⟨fun ⟨_, hqs, hmap⟩ => perm_of_lastValue? hps hqs hmap.symm, fun hperm => ?_⟩
  have hqs := names_nodup_of_perm hps hperm
  exact ⟨rfl, hqs, lastValue?_congr hqs hps fun _ => hperm.mem_iff.symm⟩

/-- A failure comes through if everything before it could be drained.  Otherwise it is never
met. -/
theorem drain_failing (e : DebugInfo.Error) (pairs : List (String × UInt64)) (w : Working) :
    drain (some e) pairs w = .error e ∧
        (names pairs).Nodup ∧ (∀ pair ∈ pairs, w.get? pair.1 = some pair.2) ∨
      drain (some e) pairs w = .ok false ∧
        ¬ ((names pairs).Nodup ∧ ∀ pair ∈ pairs, w.get? pair.1 = some pair.2) := by
  induction pairs generalizing w with
  | nil => exact .inl ⟨rfl, List.nodup_nil, nofun⟩
  | cons pair rest ih =>
    obtain ⟨first, v⟩ := pair
    -- a pair of the rest stands in what is left just if it stood there and is another name's
    have hleft : ((names rest).Nodup ∧ ∀ pair ∈ rest, (w.erase first).get? pair.1 = some pair.2) ↔
        (names ((first, v) :: rest)).Nodup ∧ ∀ pair ∈ rest, w.get? pair.1 = some pair.2 := by
      have hnames : (names ((first, v) :: rest)).Nodup ↔ first ∉ names rest ∧ (names rest).Nodup :=
        List.nodup_cons
      rw [hnames]
      simp only [SortedMap.get?_erase]
      constructor
      · rintro ⟨hnodup, hrest⟩
        have hother (pair) (hpair : pair ∈ rest) : pair.1 ≠ first := fun heq => by
          simpa [heq] using hrest pair hpair
        refine ⟨⟨fun hmem => ?_, hnodup⟩, fun pair hpair => ?_⟩
        · obtain ⟨pair, hpair, heq⟩ := List.mem_map.mp hmem
          exact hother pair hpair heq
        · simpa [hother pair hpair] using hrest pair hpair
      · rintro ⟨⟨hfresh, hnodup⟩, hrest⟩
        refine ⟨hnodup, fun pair hpair => ?_⟩
        have hother : pair.1 ≠ first := fun heq => hfresh (heq ▸ List.mem_map_of_mem hpair)
        simpa [hother] using hrest pair hpair
    unfold drain
    split
    · rename_i hfirst
      simp only [List.forall_mem_cons, hfirst, true_and, ← hleft]
      exact ih _
    · rename_i hfirst
      exact .inr ⟨rfl, fun h => hfirst (h.2 _ List.mem_cons_self)⟩

/-- What a listing that fails gives: its failure if all it lists before could be drained, and
otherwise that the two do not agree. -/
theorem agrees_failing {a b : Listing} {e : DebugInfo.Error} (ha : a.failure = none)
    (hb : b.failure = some e) :
    (a.agrees b = .error e ↔ Drains b.pairs a.pairs) ∧
      (a.agrees b = .ok false ↔ ¬ Drains b.pairs a.pairs) := by
  have hdrain := drain_failing e b.pairs
    (a.pairs.foldl (fun w (name, value) => w.insert name value) .empty)
  rw [← hb, ← agrees_eq ha] at hdrain
  simp only [get?_foldl_insert_eq, SortedMap.get?_empty, Option.or_none] at hdrain
  rcases hdrain with ⟨hresult, hdrains⟩ | ⟨hresult, hnot⟩
  · rw [hresult]
    refine ⟨⟨fun _ => hdrains, fun _ => rfl⟩, fun heq => ?_, fun hnot => absurd hdrains hnot⟩
    cases heq
  · rw [hresult]
    refine ⟨⟨fun heq => ?_, fun hdrains => absurd hdrains hnot⟩, fun _ => hnot, fun _ => rfl⟩
    cases heq

/-- Listings without repeated names fall into classes of those that agree. -/
theorem agrees_equivalence :
    Equivalence fun p q : { pairs : List (String × UInt64) // (names pairs).Nodup } =>
      (complete p.1).agrees (complete q.1) = .ok true where
  refl p := (agrees_iff_perm p.2).mpr (.refl _)
  symm {p q} h := (agrees_iff_perm q.2).mpr ((agrees_iff_perm p.2).mp h).symm
  trans {p q _} h h' :=
    (agrees_iff_perm p.2).mpr (((agrees_iff_perm p.2).mp h).trans ((agrees_iff_perm q.2).mp h'))

/-- Listings without repeated names are compared alike in either direction, in any order. -/
theorem agrees_of_perm {ps qs ps' qs' : List (String × UInt64)} (hps : (names ps).Nodup)
    (hqs : (names qs).Nodup) (hperm : ps.Perm ps') (hperm' : qs.Perm qs') :
    (complete ps').agrees (complete qs') = (complete ps).agrees (complete qs) ∧
      (complete qs).agrees (complete ps) = (complete ps).agrees (complete qs) := by
  refine ⟨agrees_congr ?_, agrees_congr ?_⟩
  · rw [agrees_iff_perm (names_nodup_of_perm hps hperm), agrees_iff_perm hps]
    exact ⟨fun h => (hperm.trans h).trans hperm'.symm, fun h => (hperm.symm.trans h).trans hperm'⟩
  · rw [agrees_iff_perm hqs, agrees_iff_perm hps]
    exact ⟨.symm, .symm⟩

/-- What a comparison says.  Listings that can be read agree just if the second has distinct names
and stands for the map of the first, where the last value of a name counts.  So without repeated
names neither the order of pairs nor the order of the two listings matters, and agreement is an
equivalence.  A second listing that fails gives its failure just if each pair before it could be
drained, and otherwise the answer no. -/
theorem agrees_spec (a b : Listing) (ha : a.failure = none) :
    (b.failure = none → (a.agrees b = .ok true ↔
      (names b.pairs).Nodup ∧ lastValue? b.pairs = lastValue? a.pairs)) ∧
    (b.failure = none → (names a.pairs).Nodup → (names b.pairs).Nodup →
      (∀ ps qs, a.pairs.Perm ps → b.pairs.Perm qs →
        (complete ps).agrees (complete qs) = a.agrees b) ∧ b.agrees a = a.agrees b) ∧
    (Equivalence fun p q : { pairs : List (String × UInt64) // (names pairs).Nodup } =>
      (complete p.1).agrees (complete q.1) = .ok true) ∧
    ∀ e, b.failure = some e →
      (a.agrees b = .error e ↔ Drains b.pairs a.pairs) ∧
      (a.agrees b = .ok false ↔ ¬ Drains b.pairs a.pairs) := by
  refine ⟨fun hb => ?_, fun hb hps hqs => ?_, agrees_equivalence, fun e => agrees_failing ha⟩
  · rw [agrees_iff ha]
    exact and_iff_right hb
  · obtain ⟨ps, _⟩ := a
    obtain ⟨qs, _⟩ := b
    subst ha hb
    exact ⟨fun ps' qs' hperm hperm' => (agrees_of_perm hps hqs hperm hperm').1,
      (agrees_of_perm hps hqs (.refl _) (.refl _)).2⟩

/-- A constant that is listed twice counts with its last value, and one that is drained twice is
not there the second time: the failure after it is never met. -/
theorem agrees_repeated :
    (⟨[("RED", 1), ("RED", 2)], none⟩ : Listing).agrees ⟨[("RED", 2)], none⟩ = .ok true ∧
    (⟨[("RED", 2)], none⟩ : Listing).agrees ⟨[("RED", 2), ("RED", 2)],
      some (.missingAttribute .constValue)⟩ = .ok false :=
  ⟨((agrees_spec ⟨[("RED", 1), ("RED", 2)], none⟩ ⟨[("RED", 2)], none⟩ rfl).1 rfl).mpr
      ⟨by decide, funext fun name => by simp only [lastValue?_cons]; split <;> rfl⟩,
    ((agrees_spec ⟨[("RED", 2)], none⟩ ⟨[("RED", 2), ("RED", 2)], _⟩ rfl).2.2.2 _ rfl).2.mpr
      fun hdrains => absurd hdrains.1 (by decide)⟩

end DebugSymbols.Listing
