import DebugSymbols.OffsetCache.Blob
import DebugSymbols.Proofs.OffsetCache
import DebugSymbols.Proofs.Wire

/-!
A cache that is written down and restored is the same cache, with the same origins.  What makes
it so is that its two maps agree (`Consistent`): every origin is a type of its ordinal, and every
ordinal in use has an origin.  Whatever is done to a cache keeps it that way, also restoring it
from bytes that came from elsewhere.
-/

namespace DebugSymbols

namespace CacheBlob

/-! ## Records -/

/-- The numbers of the record fit the fields they are written to. -/
structure Entry.Fits (e : Entry) : Prop where
  kind : ∃ k : Nat, k < 2 ^ 31 ∧ e.kind = k
  ordinal : e.ordinal < UInt32.size

structure Fits (b : CacheBlob) : Prop where
  version : b.version < UInt32.size
  entries : ∀ e ∈ b.entries, e.Fits
  origins : ∀ o ∈ b.origins, o.ordinal < UInt32.size

open Wire

theorem word_lt {n : Nat} (h : n < UInt32.size) : n < UInt64.size :=
  Nat.lt_trans h (by decide)

theorem Entry.decode_encode {e : Entry} (h : e.Fits) : Entry.decode e.encode = some e := by
  obtain ⟨k, hk, hkind⟩ := h.kind
  have hordinal := h.ordinal
  have hpending : e.pending.toNat < UInt64.size :=
    Nat.lt_of_le_of_lt (Bool.toNat_le _) (by decide)
  have hkindNat : e.kind.toNat = k := by rw [hkind]; rfl
  have hreads : Reads e.encode (numberField 1 e.offset.toNat ++ numberField 2 k ++
      numberField 3 e.ordinal ++ numberField 4 e.pending.toNat) := by
    unfold Entry.encode
    rw [hkindNat]
    exact (((Reads.putNumber (by decide) (by decide) e.offset.toNat_lt).append
      (Reads.putNumber (by decide) (by decide) (Nat.lt_trans hk (by decide)))).append
      (Reads.putNumber (by decide) (by decide) (word_lt hordinal))).append
      (Reads.putNumber (by decide) (by decide) hpending)
  have hbmod : e.kind.bmod UInt32.size = e.kind := by
    rw [hkind]
    exact Int.bmod_eq_of_le (by simp) (by simp; omega)
  have hbool : (e.pending.toNat != 0) = e.pending := by cases e.pending <;> rfl
  unfold Entry.decode
  rw [fields_eq_some hreads]
  simp only [Option.bind_eq_bind, Option.bind_some]
  rw [number_of_filter (n := e.offset.toNat) (by simp [filter_numberField]),
    number_of_filter (n := k) (by simp [filter_numberField]),
    number_of_filter (n := e.ordinal) (by simp [filter_numberField]),
    number_of_filter (n := e.pending.toNat) (by simp [filter_numberField])]
  simp [← hkind, hbmod, hbool, low32, Nat.mod_eq_of_lt hordinal]

theorem Origin.decode_encode {o : Origin} (h : o.ordinal < UInt32.size) :
    Origin.decode o.encode = some o := by
  have hreads : Reads o.encode (numberField 1 o.ordinal ++ numberField 2 o.offset.toNat) :=
    (Reads.putNumber (by decide) (by decide) (word_lt h)).append
      (Reads.putNumber (by decide) (by decide) o.offset.toNat_lt)
  unfold Origin.decode
  rw [fields_eq_some hreads]
  simp only [Option.bind_eq_bind, Option.bind_some]
  rw [number_of_filter (n := o.ordinal) (by simp [filter_numberField]),
    number_of_filter (n := o.offset.toNat) (by simp [filter_numberField])]
  simp [low32, Nat.mod_eq_of_lt h]

theorem Entry.length_encode_lt {e : Entry} (h : e.Fits) : e.encode.length < UInt64.size := by
  obtain ⟨k, hk, hkind⟩ := h.kind
  have hkindNat : e.kind.toNat = k := by rw [hkind]; rfl
  have h1 := length_putNumber_le 1 (by decide) e.offset.toNat_lt
  have h2 := length_putNumber_le 2 (n := k) (by decide) (Nat.lt_trans hk (by decide))
  have h3 := length_putNumber_le 3 (by decide) (word_lt h.ordinal)
  have h4 := length_putNumber_le 4 (n := e.pending.toNat) (by decide)
    (Nat.lt_of_le_of_lt (Bool.toNat_le _) (by decide))
  refine Nat.lt_of_le_of_lt (m := 44) ?_ (by decide)
  simp only [Entry.encode, hkindNat, List.length_append]
  omega

theorem Origin.length_encode_lt {o : Origin} (h : o.ordinal < UInt32.size) :
    o.encode.length < UInt64.size := by
  have h1 := length_putNumber_le 1 (by decide) (word_lt h)
  have h2 := length_putNumber_le 2 (by decide) o.offset.toNat_lt
  refine Nat.lt_of_le_of_lt (m := 22) ?_ (by decide)
  simp only [Origin.encode, List.length_append]
  omega

theorem mapM_decode {α : Type} {encode : α → List UInt8} {decode : List UInt8 → Option α}
    {l : List α} (h : ∀ a ∈ l, decode (encode a) = some a) :
    (l.map encode).mapM decode = some l := by
  induction l with
  | nil => rfl
  | cons a l ih =>
    have htail := ih fun b hb => h b (List.mem_cons_of_mem _ hb)
    simp [h a List.mem_cons_self, htail]

theorem mem_of_mapM {α β : Type} {f : α → Option β} {l : List α} {r : List β}
    (h : l.mapM f = some r) {b : β} (hb : b ∈ r) : ∃ a ∈ l, f a = some b := by
  induction l generalizing r with
  | nil =>
    cases h
    cases hb
  | cons a l ih =>
    simp only [List.mapM_cons, Option.bind_eq_bind, Option.bind_eq_some_iff, Option.pure_def,
      Option.some.injEq] at h
    obtain ⟨b', hf, r', hr, rfl⟩ := h
    rcases List.mem_cons.mp hb with rfl | hb
    · exact ⟨a, List.mem_cons_self, hf⟩
    · obtain ⟨a', ha', hf'⟩ := ih hr hb
      exact ⟨a', List.mem_cons_of_mem _ ha', hf'⟩

theorem decode_encode {b : CacheBlob} (h : b.Fits) : decode b.encode = some b := by
  have hentries := Reads.putEach 2 (by decide) (by decide) fun e he =>
    Entry.length_encode_lt (h.entries e he)
  have horigins := Reads.putEach 3 (by decide) (by decide) fun o ho =>
    Origin.length_encode_lt (h.origins o ho)
  have hreads : Reads b.encode (numberField 1 b.version ++
      bytesFields 2 (b.entries.map Entry.encode) ++
      bytesFields 3 (b.origins.map Origin.encode)) :=
    ((Reads.putNumber (by decide) (by decide) (word_lt h.version)).append hentries).append horigins
  unfold decode
  rw [fields_eq_some hreads]
  simp only [Option.bind_eq_bind, Option.bind_some]
  rw [number_of_filter (n := b.version) (by simp [filter_numberField, filter_bytesFields]),
    contents_of_filter (l := b.entries.map Entry.encode)
      (by simp [filter_numberField, filter_bytesFields]),
    contents_of_filter (l := b.origins.map Origin.encode)
      (by simp [filter_numberField, filter_bytesFields])]
  simp only [Option.bind_some]
  rw [mapM_decode fun e he => Entry.decode_encode (h.entries e he),
    mapM_decode fun o ho => Origin.decode_encode (h.origins o ho)]
  simp [low32, Nat.mod_eq_of_lt h.version]

theorem Entry.ordinal_lt_of_decode {bytes : List UInt8} {e : Entry}
    (h : Entry.decode bytes = some e) : e.ordinal < UInt32.size := by
  simp only [Entry.decode, Option.bind_eq_bind, Option.bind_eq_some_iff, Option.pure_def,
    Option.some.injEq] at h
  obtain ⟨fs, -, offset, -, kind, -, ordinal, -, pending, -, rfl⟩ := h
  exact Nat.mod_lt _ (by decide)

/-- Ordinals are cut off at 32 bits as they are read. -/
theorem ordinal_lt_of_decode {bytes : List UInt8} {b : CacheBlob} (h : decode bytes = some b) :
    ∀ e ∈ b.entries, e.ordinal < UInt32.size := by
  simp only [decode, Option.bind_eq_bind, Option.bind_eq_some_iff, Option.pure_def,
    Option.some.injEq] at h
  obtain ⟨fs, -, version, -, written, -, entries, hentries, -, -, -, -, rfl⟩ := h
  intro e he
  obtain ⟨bytes, -, hdecode⟩ := mem_of_mapM hentries he
  exact Entry.ordinal_lt_of_decode hdecode

end CacheBlob

namespace OffsetCache

/-! ## Restoring one record -/

theorem restoreEntry_eq_ok {c d : OffsetCache} {e : CacheBlob.Entry} :
    c.restoreEntry e = .ok d ↔
      (e.kind = 0 ∧ d = c.markUseless e.offset) ∨
      (e.kind = 1 ∧ d = c.markType e.offset ⟨e.ordinal⟩ e.pending) ∨
      (e.kind = 2 ∧ d = c.markPlaced e.offset) := by
  unfold restoreEntry
  split <;> simp_all [eq_comm]

theorem restoreOrigin_eq_ok {c d : OffsetCache} {r : CacheBlob.Origin} :
    c.restoreOrigin r = .ok d ↔
      (∃ pending, c.type? r.offset = some (⟨r.ordinal⟩, pending)) ∧
        d = { c with origins := c.origins.insert r.ordinal r.offset } := by
  unfold restoreOrigin
  split
  · rename_i o pending h
    rw [h]
    by_cases hval : o.val = r.ordinal
    · have heq : o = ⟨r.ordinal⟩ := by
        cases o
        exact congrArg _ hval
      simp [heq, eq_comm]
    · have hne : o ≠ ⟨r.ordinal⟩ := fun heq => hval (congrArg Ordinal.val heq)
      simp [hval, hne]
  · simp_all

theorem typeOffset?_insert (c : OffsetCache) (n : Nat) (x : UInt64) (o : Ordinal) :
    typeOffset? { c with origins := c.origins.insert n x } o =
      if o = ⟨n⟩ then some x else c.typeOffset? o := by
  have hval : o.val = n ↔ o = ⟨n⟩ := by
    cases o
    simp
  simp only [typeOffset?, SortedMap.get?_insert, hval]

/-! ## Caches whose maps agree -/

/-- Every origin is a type of its ordinal, and every ordinal in use has an origin. -/
structure Consistent (c : OffsetCache) : Prop where
  origin : ∀ {o x}, c.typeOffset? o = some x → ∃ pending, c.type? x = some (o, pending)
  indexed : ∀ {x o pending}, c.type? x = some (o, pending) → ∃ y, c.typeOffset? o = some y

/-- The ordinals fit 32 bits. -/
def Narrow (c : OffsetCache) : Prop :=
  ∀ x o pending, c.type? x = some (o, pending) → o.val < UInt32.size

namespace Consistent

theorem of_same {c d : OffsetCache} (h : c.Consistent) (ht : ∀ x, d.type? x = c.type? x)
    (ho : ∀ o, d.typeOffset? o = c.typeOffset? o) : d.Consistent where
  origin hx := by
    rw [ho] at hx
    simpa only [ht] using h.origin hx
  indexed hx := by
    rw [ht] at hx
    simpa only [ho] using h.indexed hx

theorem empty : OffsetCache.empty.Consistent where
  origin h := nomatch h
  indexed h := nomatch h

theorem markUseless {c : OffsetCache} (h : c.Consistent) (offset : UInt64) :
    (c.markUseless offset).Consistent :=
  h.of_same (type?_markUseless c offset) (typeOffset?_markUseless c offset)

theorem markPlaced {c : OffsetCache} (h : c.Consistent) (offset : UInt64) :
    (c.markPlaced offset).Consistent :=
  h.of_same (type?_markPlaced c offset) (typeOffset?_markPlaced c offset)

theorem markType {c : OffsetCache} (h : c.Consistent) (offset : UInt64) (o : Ordinal)
    (pending : Bool) : (c.markType offset o pending).Consistent := by
  by_cases hopen : c.isOpen offset = true
  · constructor
    · intro o' x hx
      rw [typeOffset?_markType hopen] at hx
      simp only [type?_markType hopen]
      split at hx
      · subst o'
        cases hfirst : c.typeOffset? o with
        | none => simp_all
        | some y =>
          obtain ⟨pending', hy⟩ := h.origin hfirst
          have hne : y ≠ offset := fun heq => by simp [heq, type?_of_isOpen hopen] at hy
          simp_all
      · obtain ⟨pending', hx⟩ := h.origin hx
        have hne : x ≠ offset := fun heq => by simp [heq, type?_of_isOpen hopen] at hx
        simp [hne, hx]
    · intro x o' pending' hx
      rw [type?_markType hopen] at hx
      rw [typeOffset?_markType hopen]
      split at hx
      · simp_all
      · obtain ⟨y, hy⟩ := h.indexed hx
        split <;> simp_all
  · rw [markType_of_not_isOpen hopen]
    exact h

theorem clearPending {c : OffsetCache} (h : c.Consistent) (offset : UInt64) :
    (c.clearPending offset).Consistent where
  origin {o x} hx := by
    rw [typeOffset?_clearPending] at hx
    obtain ⟨pending, hx⟩ := h.origin hx
    rw [type?_clearPending]
    split
    · simp_all
    · exact ⟨pending, hx⟩
  indexed {x o pending} hx := by
    rw [typeOffset?_clearPending]
    rw [type?_clearPending] at hx
    split at hx
    · obtain ⟨⟨o', pending'⟩, hoffset, heq⟩ := Option.map_eq_some_iff.mp hx
      cases heq
      exact h.indexed hoffset
    · exact h.indexed hx

theorem restoreEntry {c d : OffsetCache} (h : c.Consistent) {e : CacheBlob.Entry}
    (hd : c.restoreEntry e = .ok d) : d.Consistent := by
  unfold OffsetCache.restoreEntry at hd
  split at hd
  · cases hd
    exact h.markUseless _
  · cases hd
    exact h.markType _ _ _
  · cases hd
    exact h.markPlaced _
  · cases hd

theorem restoreOrigin {c d : OffsetCache} (h : c.Consistent) {r : CacheBlob.Origin}
    (hd : c.restoreOrigin r = .ok d) : d.Consistent := by
  obtain ⟨⟨pending, htype⟩, rfl⟩ := restoreOrigin_eq_ok.mp hd
  constructor
  · intro o x hx
    rw [typeOffset?_insert] at hx
    split at hx
    · rename_i ho
      cases hx
      exact ⟨pending, ho ▸ htype⟩
    · exact h.origin hx
  · intro x o pending' hx
    rw [typeOffset?_insert]
    split
    · exact ⟨_, rfl⟩
    · exact h.indexed hx

end Consistent

namespace Narrow

theorem of_same {c d : OffsetCache} (h : c.Narrow) (ht : ∀ x, d.type? x = c.type? x) :
    d.Narrow := fun x o pending hx => by
  rw [ht] at hx
  exact h x o pending hx

theorem empty : OffsetCache.empty.Narrow := fun _ _ _ h => nomatch h

theorem markType {c : OffsetCache} (h : c.Narrow) (offset : UInt64) {o : Ordinal}
    (ho : o.val < UInt32.size) (pending : Bool) : (c.markType offset o pending).Narrow := by
  by_cases hopen : c.isOpen offset = true
  · intro x o' pending' hx
    rw [type?_markType hopen] at hx
    split at hx
    · cases hx
      exact ho
    · exact h x o' pending' hx
  · rw [markType_of_not_isOpen hopen]
    exact h

theorem clearPending {c : OffsetCache} (h : c.Narrow) (offset : UInt64) :
    (c.clearPending offset).Narrow := by
  intro x o pending hx
  rw [type?_clearPending] at hx
  split at hx
  · obtain ⟨⟨o', pending'⟩, hoffset, heq⟩ := Option.map_eq_some_iff.mp hx
    cases heq
    exact h offset o pending' hoffset
  · exact h x o pending hx

theorem restoreEntry {c d : OffsetCache} (h : c.Narrow) {e : CacheBlob.Entry}
    (he : e.ordinal < UInt32.size) (hd : c.restoreEntry e = .ok d) : d.Narrow := by
  obtain ⟨-, rfl⟩ | ⟨-, rfl⟩ | ⟨-, rfl⟩ := restoreEntry_eq_ok.mp hd
  · exact h.of_same (type?_markUseless _ _)
  · exact h.markType _ he _
  · exact h.of_same (type?_markPlaced _ _)

theorem restoreOrigin {c d : OffsetCache} (h : c.Narrow) {r : CacheBlob.Origin}
    (hd : c.restoreOrigin r = .ok d) : d.Narrow := by
  obtain ⟨-, rfl⟩ := restoreOrigin_eq_ok.mp hd
  exact h

end Narrow

/-! ## Restoring all records -/

/-- What every accepted record keeps holds of the whole. -/
theorem foldlM_ok {α β ε : Type} {P : β → Prop} {f : β → α → Except ε β} {l : List α} {b b' : β}
    (hstep : ∀ a ∈ l, ∀ b b', P b → f b a = .ok b' → P b') (hb : P b)
    (h : l.foldlM f b = .ok b') : P b' := by
  induction l generalizing b with
  | nil =>
    cases h
    exact hb
  | cons a l ih =>
    rw [List.foldlM_cons] at h
    cases hf : f b a with
    | error e => simp [hf, bind, Except.bind] at h
    | ok m =>
      simp only [hf, bind, Except.bind] at h
      exact ih (fun a ha => hstep a (List.mem_cons_of_mem _ ha))
        (hstep a List.mem_cons_self b m hb hf) h

theorem ofBlob_eq_ok {b : CacheBlob} {d : OffsetCache} :
    ofBlob b = .ok d ↔ b.version = CacheBlob.currentVersion ∧
      ∃ c, b.entries.foldlM restoreEntry empty = .ok c ∧
        b.origins.foldlM restoreOrigin c = .ok d := by
  unfold ofBlob
  split
  · rename_i hversion
    cases hc : b.entries.foldlM restoreEntry empty with
    | error e => simp [bind, Except.bind]
    | ok c => simp [hversion, bind, Except.bind]
  · simp_all

theorem Consistent.ofBlob {b : CacheBlob} {d : OffsetCache} (h : ofBlob b = .ok d) :
    d.Consistent := by
  obtain ⟨-, c, hc, hd⟩ := ofBlob_eq_ok.mp h
  refine foldlM_ok (fun _ _ _ _ h => Consistent.restoreOrigin h) ?_ hd
  exact foldlM_ok (fun _ _ _ _ h => Consistent.restoreEntry h) Consistent.empty hc

theorem Narrow.ofBlob {b : CacheBlob} {d : OffsetCache}
    (hb : ∀ e ∈ b.entries, e.ordinal < UInt32.size) (h : ofBlob b = .ok d) : d.Narrow := by
  obtain ⟨-, c, hc, hd⟩ := ofBlob_eq_ok.mp h
  refine foldlM_ok (fun _ _ _ _ h => Narrow.restoreOrigin h) ?_ hd
  exact foldlM_ok (fun e he _ _ h => Narrow.restoreEntry h (hb e he)) Narrow.empty hc

/-! ## Restoring what was written -/

/-- Restoring a class as it is recorded, where nothing is known yet. -/
theorem restoreEntry_entryOf {c : OffsetCache} {x : UInt64} (h : c.get? x = none)
    (cl : Classification) :
    ∃ d, c.restoreEntry (entryOf x cl) = .ok d ∧
      ∀ y, d.get? y = if y = x then some cl else c.get? y := by
  cases cl with
  | useless =>
    refine ⟨c.markUseless x, rfl, fun y => ?_⟩
    rw [get?_markUseless, h]
    rfl
  | type o pending =>
    refine ⟨c.markType x o pending, rfl, fun y => ?_⟩
    simp [get?_markType, isOpen_of_get? h]
  | placed =>
    refine ⟨c.markPlaced x, rfl, fun y => ?_⟩
    simp [get?_markPlaced, isOpen_of_get? h]

/-- The offsets of a map ascend, so none of them is restored twice. -/
theorem restore_classes {l : List (UInt64 × Classification)}
    (hl : l.Pairwise (fun a b => a.1 < b.1)) {c : OffsetCache}
    (hfree : ∀ e ∈ l, c.get? e.1 = none) :
    ∃ d, (l.map fun (x, cl) => entryOf x cl).foldlM restoreEntry c = .ok d ∧
      ∀ y, d.get? y = (SortedMap.find y l).or (c.get? y) := by
  induction l generalizing c with
  | nil => exact ⟨c, rfl, fun _ => rfl⟩
  | cons e l ih =>
    obtain ⟨he, hl⟩ := List.pairwise_cons.mp hl
    obtain ⟨m, hm, hget⟩ := restoreEntry_entryOf (hfree e List.mem_cons_self) e.2
    have hfree' : ∀ a ∈ l, m.get? a.1 = none := by
      intro a ha
      have hne : a.1 ≠ e.1 := fun heq => Std.lt_irrefl (heq ▸ he a ha)
      rw [hget, if_neg hne]
      exact hfree a (List.mem_cons_of_mem _ ha)
    obtain ⟨d, hd, hd'⟩ := ih hl hfree'
    refine ⟨d, ?_, fun y => ?_⟩
    · rw [List.map_cons, List.foldlM_cons, hm]
      exact hd
    · rw [hd', hget, SortedMap.find]
      split
      · rename_i hy
        have hnone : SortedMap.find y l = none := SortedMap.find_eq_none_of_lt (hy ▸ he)
        simp [hnone]
      · rfl

/-- An origin that is a type of its ordinal is accepted, over what the entries suggest. -/
theorem restore_origins {l : List (Nat × UInt64)} (hl : l.Pairwise (fun a b => a.1 < b.1))
    {c : OffsetCache} (hval : ∀ e ∈ l, ∃ pending, c.type? e.2 = some (⟨e.1⟩, pending)) :
    ∃ d, (l.map fun (n, x) => (⟨n, x⟩ : CacheBlob.Origin)).foldlM restoreOrigin c = .ok d ∧
      d.classes = c.classes ∧
      ∀ n, d.origins.get? n = (SortedMap.find n l).or (c.origins.get? n) := by
  induction l generalizing c with
  | nil => exact ⟨c, rfl, rfl, fun _ => rfl⟩
  | cons e l ih =>
    obtain ⟨he, hl⟩ := List.pairwise_cons.mp hl
    have hm := restoreOrigin_eq_ok (r := ⟨e.1, e.2⟩).mpr ⟨hval e List.mem_cons_self, rfl⟩
    obtain ⟨d, hd, hclasses, horigins⟩ :=
      ih (c := { c with origins := c.origins.insert e.1 e.2 }) hl
        fun a ha => hval a (List.mem_cons_of_mem _ ha)
    refine ⟨d, ?_, hclasses, fun n => ?_⟩
    · rw [List.map_cons, List.foldlM_cons, hm]
      exact hd
    · rw [horigins, SortedMap.get?_insert, SortedMap.find]
      split
      · rename_i hn
        have hnone : SortedMap.find n l = none := SortedMap.find_eq_none_of_lt (hn ▸ he)
        simp [hnone]
      · rfl

theorem ofBlob_toBlob {c : OffsetCache} (h : c.Consistent) : ofBlob c.toBlob = .ok c := by
  obtain ⟨d, hd, hget⟩ := restore_classes c.classes.ascending (c := empty) fun _ _ => rfl
  have hclass : ∀ y, d.get? y = c.get? y := fun y => by
    rw [hget]
    exact Option.or_none
  have htype : ∀ y, d.type? y = c.type? y := fun y => by
    unfold type?
    rw [hclass]
  have horigin : ∀ e ∈ c.origins.toList, ∃ pending, d.type? e.2 = some (⟨e.1⟩, pending) := by
    intro e he
    obtain ⟨pending, hx⟩ := h.origin (o := ⟨e.1⟩) (SortedMap.mem_toList.mp he)
    exact ⟨pending, by rw [htype, hx]⟩
  obtain ⟨d', hd', hclasses, horigins⟩ := restore_origins c.origins.ascending horigin
  have hrestored : ofBlob c.toBlob = .ok d' := ofBlob_eq_ok.mpr ⟨rfl, d, hd, hd'⟩
  -- The entries alone suggest no origin that the cache does not have.
  have hextra : ∀ n, c.origins.get? n = none → d.origins.get? n = none := by
    intro n hn
    have hd'' : d.Consistent := foldlM_ok (fun _ _ _ _ h => Consistent.restoreEntry h)
      Consistent.empty hd
    refine Option.eq_none_iff_forall_ne_some.mpr fun x hx => ?_
    obtain ⟨pending, hx⟩ := hd''.origin (o := ⟨n⟩) hx
    rw [htype] at hx
    obtain ⟨y, hy⟩ := h.indexed hx
    exact nomatch hn.symm.trans hy
  rw [hrestored]
  congr 1
  refine OffsetCache.ext (fun y => ?_) fun n => ?_
  · rw [hclasses]
    exact hclass y
  · rw [horigins]
    change (c.origins.get? n).or _ = _
    cases hn : c.origins.get? n with
    | some x => rfl
    | none => simpa using hextra n hn

theorem fits_toBlob {c : OffsetCache} (h : c.Consistent) (hn : c.Narrow) : c.toBlob.Fits where
  version := (by decide : CacheBlob.currentVersion < UInt32.size)
  entries e he := by
    obtain ⟨⟨x, cl⟩, hmem, rfl⟩ := List.mem_map.mp he
    cases cl with
    | useless => exact ⟨⟨0, by decide, rfl⟩, (by decide : 0 < UInt32.size)⟩
    | type o pending =>
      have hx : c.type? x = some (o, pending) := type?_eq_some.mpr (SortedMap.mem_toList.mp hmem)
      exact ⟨⟨1, by decide, rfl⟩, hn x o pending hx⟩
    | placed => exact ⟨⟨2, by decide, rfl⟩, (by decide : 0 < UInt32.size)⟩
  origins r hr := by
    obtain ⟨⟨n, x⟩, hmem, rfl⟩ := List.mem_map.mp hr
    obtain ⟨pending, hx⟩ := h.origin (o := ⟨n⟩) (SortedMap.mem_toList.mp hmem)
    exact hn x ⟨n⟩ pending hx

theorem ofBytes_toBytes {c : OffsetCache} (h : c.Consistent) (hn : c.Narrow) :
    ofBytes c.toBytes = .ok c := by
  unfold ofBytes toBytes
  rw [CacheBlob.decode_encode (fits_toBlob h hn)]
  exact ofBlob_toBlob h

/-! ## Whatever is done to a cache -/

/-- A cache that bytes from anywhere were restored to can be written down and restored again. -/
theorem good_of_ofBytes {bytes : List UInt8} {c : OffsetCache} (h : ofBytes bytes = .ok c) :
    c.Consistent ∧ c.Narrow := by
  unfold ofBytes at h
  split at h
  · rename_i b hdecode
    exact ⟨.ofBlob h, .ofBlob (CacheBlob.ordinal_lt_of_decode hdecode) h⟩
  · cases h

/-- One change to a cache.  Ordinals are numbers of 32 bits. -/
inductive Write where
  | useless (offset : UInt64)
  | type (offset : UInt64) (ordinal : UInt32) (pending : Bool)
  | placed (offset : UInt64)
  | resolved (offset : UInt64)
  /-- The cache is replaced by the one that the bytes describe, if they do. -/
  | replaced (bytes : List UInt8)
deriving Repr

def write (c : OffsetCache) : Write → OffsetCache
  | .useless offset => c.markUseless offset
  | .type offset ordinal pending => c.markType offset ⟨ordinal.toNat⟩ pending
  | .placed offset => c.markPlaced offset
  | .resolved offset => c.clearPending offset
  | .replaced bytes =>
    match ofBytes bytes with
    | .ok d => d
    | .error _ => c

theorem good_write {c : OffsetCache} (h : c.Consistent ∧ c.Narrow) (w : Write) :
    (c.write w).Consistent ∧ (c.write w).Narrow := by
  obtain ⟨hc, hn⟩ := h
  cases w with
  | useless offset => exact ⟨hc.markUseless offset, hn.of_same (type?_markUseless c offset)⟩
  | type offset ordinal pending =>
    exact ⟨hc.markType offset _ pending, hn.markType offset ordinal.toNat_lt pending⟩
  | placed offset => exact ⟨hc.markPlaced offset, hn.of_same (type?_markPlaced c offset)⟩
  | resolved offset => exact ⟨hc.clearPending offset, hn.clearPending offset⟩
  | replaced bytes =>
    simp only [write]
    split
    · rename_i d hd
      exact good_of_ofBytes hd
    · exact ⟨hc, hn⟩

theorem good_writes (ws : List Write) :
    (ws.foldl write empty).Consistent ∧ (ws.foldl write empty).Narrow := by
  have hall : ∀ c : OffsetCache, c.Consistent ∧ c.Narrow →
      (ws.foldl write c).Consistent ∧ (ws.foldl write c).Narrow := by
    induction ws with
    | nil => exact fun _ h => h
    | cons w ws ih => exact fun c h => ih (c.write w) (good_write h w)
  exact hall empty ⟨.empty, .empty⟩

/-- Whatever was done to a cache, it is restored from its bytes as it was. -/
theorem ofBytes_toBytes_writes (ws : List Write) :
    ofBytes (ws.foldl write empty).toBytes = .ok (ws.foldl write empty) :=
  ofBytes_toBytes (good_writes ws).1 (good_writes ws).2

end OffsetCache

end DebugSymbols
