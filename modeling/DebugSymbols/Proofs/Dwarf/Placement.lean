import DebugSymbols.Dwarf.DebugInfo
import DebugSymbols.Proofs.Bytes.Forward

/-!
Where units and entries lie.  The units of a section follow each other without a gap (`Tiled`),
and the entries of a unit start at ascending offsets inside it (`ascending_readAll`).
-/

namespace DebugSymbols

/-! ## Units -/

namespace UnitHeader

/-- The unit takes the bytes from `low` up to `high`, its entries the last ones of them. -/
structure Spans (h : UnitHeader) (low high : Nat) : Prop where
  nonempty : low < high
  start : h.start = low.toUInt64
  size : h.size = (high - low).toUInt64
  entries : h.entriesStart + h.entries.size = high - low

/-- Units that follow each other from `low` up to `high`. -/
inductive Tiled : List UnitHeader → Nat → Nat → Prop
  | nil (low : Nat) : Tiled [] low low
  | cons {h : UnitHeader} {rest : List UnitHeader} {low middle high : Nat} :
      h.Spans low middle → Tiled rest middle high → Tiled (h :: rest) low high

theorem Tiled.le {headers : List UnitHeader} {low high : Nat} (t : Tiled headers low high) :
    low ≤ high := by
  induction t with
  | nil => exact Nat.le_refl _
  | cons hs _ ih => exact Nat.le_trans (Nat.le_of_lt hs.nonempty) ih

open Read

theorem run_initialLength {c c' : Cursor} {length : Nat} {size : OffsetSize}
    (h : initialLength.run c = some ((length, size), c')) :
    c' = { c with position := c.position + size.lengthBytes } ∧
      c.position + size.lengthBytes ≤ c.data.size := by
  obtain ⟨n, c₁, h₁, h⟩ := run_bind_some h
  obtain ⟨b₁, d₁, hb₁, hn⟩ := run_bind_some h₁
  obtain ⟨b₂, d₂, hb₂, hm⟩ := run_bind_some hb₁
  obtain ⟨rfl, hlow, -⟩ := run_bytes hb₂
  cases hm
  cases hn
  split at h
  · cases h
    exact ⟨rfl, by simp only [OffsetSize.lengthBytes]; omega⟩
  · split at h
    · obtain ⟨m, c₂, h₂, h⟩ := run_bind_some h
      obtain ⟨b₃, d₃, hb₃, hm⟩ := run_bind_some h₂
      obtain ⟨b₄, d₄, hb₄, hk⟩ := run_bind_some hb₃
      obtain ⟨rfl, hhigh, -⟩ := run_bytes hb₄
      simp only at hhigh
      cases hk
      cases hm
      cases h
      exact ⟨rfl, by simp only [OffsetSize.lengthBytes]; omega⟩
    · cases h

theorem forward_readKindFields (size : OffsetSize) (kind : UInt8) :
    Forward (readKindFields size kind) := by
  unfold readKindFields
  split
  · exact forward_pure ()
  · exact forward_pure ()
  · exact forward_skip 8
  · exact forward_skip 8
  · exact forward_skip _
  · exact forward_skip _
  · exact forward_failure

theorem forward_readFields (size : OffsetSize) : Forward (readFields size) := by
  have unit (abbreviations : UInt64) (version width : Nat) (kind : UInt8) :
      Forward (do
        readKindFields size kind
        return (version, width, abbreviations)) :=
    forward_bind (forward_readKindFields size kind) fun _ => forward_pure _
  refine forward_bind (forward_fixed 2) fun version => forward_ite ?_ (forward_ite ?_ ?_)
  · exact forward_bind (forward_fixed _) fun _ =>
      forward_bind forward_addressSize fun _ => forward_pure _
  · refine forward_bind forward_byte fun kind => forward_ite ?_ ?_
    · exact forward_bind forward_failure fun _ => forward_bind forward_addressSize fun _ =>
        forward_bind (forward_fixed _) fun _ => unit _ _ _ kind
    · exact forward_bind forward_addressSize fun _ =>
        forward_bind (forward_fixed _) fun _ => unit _ _ _ kind
  · exact forward_failure

theorem run_read {c c' : Cursor} {h : UnitHeader} (hr : read.run c = some (h, c')) :
    c'.data = c.data ∧ c'.position ≤ c.data.size ∧ h.Spans c.position c'.position := by
  obtain ⟨start, c₀, h₀, hr⟩ := run_bind_some hr
  cases h₀
  obtain ⟨⟨length, size⟩, c₁, h₁, hr⟩ := run_bind_some hr
  obtain ⟨rfl, hstart⟩ := run_initialLength h₁
  obtain ⟨contentStart, c₂, h₂, hr⟩ := run_bind_some hr
  cases h₂
  obtain ⟨content, c₃, h₃, hr⟩ := run_bind_some hr
  obtain ⟨rfl, hlength, rfl⟩ := run_bytes h₃
  simp only at hr hlength
  obtain ⟨⟨⟨version, width, abbreviations⟩, c₄⟩, c₅, h₄, hr⟩ := run_bind_some hr
  cases hf : (readFields size).run
      ⟨c.data.extract (c.position + size.lengthBytes)
        (c.position + size.lengthBytes + length), 0⟩ with
  | none => rw [hf] at h₄; cases h₄
  | some p =>
    rw [hf] at h₄
    cases h₄
    cases hr
    have hpos : 0 < size.lengthBytes := by cases size <;> decide
    obtain ⟨hdata, -, hle⟩ := forward_readFields size _ _ _ hf
    have hfields : c₄.position ≤ (c.data.extract (c.position + size.lengthBytes)
        (c.position + size.lengthBytes + length)).size := hle (Nat.zero_le _)
    rw [ByteArray.size_extract] at hfields
    refine ⟨rfl, ?_, ?_, rfl, ?_, ?_⟩
    · change c.position + size.lengthBytes + length ≤ c.data.size
      omega
    · change c.position < c.position + size.lengthBytes + length
      omega
    · change (c.position + size.lengthBytes - c.position + length).toUInt64 =
        (c.position + size.lengthBytes + length - c.position).toUInt64
      congr 1
      omega
    · change c.position + size.lengthBytes - c.position + c₄.position + (entries _).size =
        c.position + size.lengthBytes + length - c.position
      simp only [entries, ByteArray.size_extract]
      omega

end UnitHeader

/-! ## Entries of a unit -/

namespace Entry

open Read

/-- Entries that start at ascending positions below `bound`. -/
def Ascending (h : UnitHeader) (entries : Array Entry) (bound : Nat) : Prop :=
  ∃ positions : List Nat, positions.Pairwise (· < ·) ∧ (∀ p ∈ positions, p < bound) ∧
    entries.toList.map (·.offset) = positions.map fun p => (h.entriesStart + p).toUInt64

theorem Ascending.mono {h : UnitHeader} {entries : Array Entry} {bound bound' : Nat}
    (ha : Ascending h entries bound) (hle : bound ≤ bound') : Ascending h entries bound' := by
  obtain ⟨positions, hpairs, hlt, heq⟩ := ha
  exact ⟨positions, hpairs, fun p hp => Nat.lt_of_lt_of_le (hlt p hp) hle, heq⟩

theorem Ascending.push {h : UnitHeader} {entries : Array Entry} {position bound : Nat}
    (ha : Ascending h entries position) (hlt : position < bound) (delta : Int) (tag : Tag)
    (attributes : List Attribute) :
    Ascending h
      (entries.push ⟨delta, (h.entriesStart + position).toUInt64, tag, attributes⟩) bound := by
  obtain ⟨positions, hpairs, hall, heq⟩ := ha
  refine ⟨positions ++ [position], ?_, ?_, ?_⟩
  · exact List.pairwise_append.mpr ⟨hpairs, List.pairwise_singleton _ _, by simpa using hall⟩
  · intro p hp
    rcases List.mem_append.mp hp with hp | hp
    · exact Nat.lt_trans (hall p hp) hlt
    · rwa [List.mem_singleton.mp hp]
  · simp [heq]

theorem forward_readAbbreviation (table : List Abbreviation) :
    Forward (readAbbreviation table) := by
  refine forward_bind forward_uleb fun code => forward_ite (forward_pure _) ?_
  split
  · exact forward_pure _
  · exact forward_failure

theorem advancing_readAbbreviation (table : List Abbreviation) :
    Advancing (readAbbreviation table) := by
  refine advancing_bind advancing_uleb fun code => forward_ite (forward_pure _) ?_
  split
  · exact forward_pure _
  · exact forward_failure

theorem ascending_readOn (h : UnitHeader) (table : List Abbreviation) (fuel : Nat) (delta : Int)
    (entries : Array Entry) (c : Cursor) (hle : c.position ≤ c.data.size)
    (ha : Ascending h entries c.position) :
    Ascending h (readOn h table fuel delta entries c).entries c.data.size := by
  induction fuel generalizing delta entries c with
  | zero => exact ha.mono hle
  | succ fuel ih =>
    unfold readOn
    split
    · exact ha.mono hle
    · split
      · exact ha.mono hle
      · rename_i c' hr
        obtain ⟨hdata, hpos, hsize⟩ := forward_readAbbreviation table _ _ _ hr
        rw [← hdata] at hsize ⊢
        exact ih _ _ _ (hsize (hdata ▸ hle)) (ha.mono hpos)
      · rename_i abbreviation c' hr
        obtain ⟨hdata, hpos, hsize⟩ := forward_readAbbreviation table _ _ _ hr
        have hlt := advancing_readAbbreviation table _ _ _ hr
        have hle' := hsize hle
        split
        · exact ha.push (Nat.lt_of_lt_of_le hlt hle') _ _ _
        · rename_i attributes c'' hattrs
          obtain ⟨hdata', hpos', hsize'⟩ :=
            forward_mapM (Attribute.forward_read h.encoding) _ _ _ _ hattrs
          rw [hdata] at hdata' hsize'
          rw [← hdata'] at hsize' ⊢
          exact ih _ _ _ (hsize' (hdata' ▸ hle'))
            (ha.push (Nat.lt_of_lt_of_le hlt hpos') _ _ _)

/-- The entries of a unit start at ascending positions in it. -/
theorem ascending_readAll (h : UnitHeader) (table : List Abbreviation) :
    Ascending h (readAll h table).entries h.entries.size :=
  ascending_readOn h table (h.entries.size + 1) 0 #[] ⟨h.entries, 0⟩ (Nat.zero_le _)
    ⟨[], .nil, by simp, rfl⟩

end Entry

/-! ## The tree of a unit -/

namespace DieTree

/-- What a node has of its own, apart from its links. -/
def Node.contents (n : Node) : UInt64 × Tag × List Attribute := (n.offset, n.tag, n.attributes)

theorem contents_link (nodes : Array Node) (index : Nat) (parent older : Option Nat) :
    (link nodes index parent older).toList.map Node.contents = nodes.toList.map Node.contents := by
  have hmodify (k : Nat) (f : Node → Node) (hf : ∀ n, (f n).contents = n.contents) :
      (nodes.modify k f).toList.map Node.contents = nodes.toList.map Node.contents := by
    apply List.ext_getElem?
    intro j
    simp only [List.getElem?_map, Array.getElem?_toList, Array.getElem?_modify]
    split
    · cases nodes[j]? <;> simp [hf]
    · rfl
  unfold link
  split
  · exact hmodify _ _ fun _ => rfl
  · exact hmodify _ _ fun _ => rfl
  · rfl

theorem contents_add {g g' : Growth} {e : Entry} (h : g.add e = some g') :
    g'.nodes.toList.map Node.contents =
      g.nodes.toList.map Node.contents ++ [(e.offset, e.tag, e.attributes)] := by
  unfold Growth.add at h
  dsimp only at h
  split at h
  · cases h
  · cases h
    simp [contents_link, Node.contents]

/-- The nodes of a tree are the entries that it is built from, in their order. -/
theorem contents_ofEntries? {entries : List Entry} {t : DieTree}
    (h : ofEntries? entries = some t) :
    t.nodes.toList.map Node.contents =
      entries.map fun e => (e.offset, e.tag, e.attributes) := by
  have hfold (g g' : Growth) (hg : entries.foldlM Growth.add g = some g') :
      g'.nodes.toList.map Node.contents =
        g.nodes.toList.map Node.contents ++
          entries.map fun e => (e.offset, e.tag, e.attributes) := by
    clear h
    induction entries generalizing g with
    | nil => cases hg; simp
    | cons e rest ih =>
      rw [List.foldlM_cons] at hg
      obtain ⟨g₁, h₁, hg⟩ := Option.bind_eq_some_iff.mp hg
      rw [ih _ hg, contents_add h₁]
      simp
  obtain ⟨g, hg, rfl⟩ := Option.map_eq_some_iff.mp h
  simpa using hfold _ g hg

/-- The nodes of a tree start where the entries do that it is built from. -/
theorem offsets_ofEntries? {entries : List Entry} {t : DieTree}
    (h : ofEntries? entries = some t) :
    t.nodes.toList.map (·.offset) = entries.map (·.offset) := by
  have hcontents := congrArg (List.map (·.1)) (contents_ofEntries? h)
  rwa [List.map_map, List.map_map] at hcontents

end DieTree

theorem Except.bind_eq_ok {ε α β : Type} {x : Except ε α} {f : α → Except ε β} {b : β}
    (h : x >>= f = .ok b) : ∃ a, x = .ok a ∧ f a = .ok b := by
  cases x with
  | error e => cases h
  | ok a => exact ⟨a, rfl, h⟩

theorem Except.mapError_eq_ok {ε ε' α : Type} {x : Except ε α} {f : ε → ε'} {a : α} :
    x.mapError f = .ok a ↔ x = .ok a := by
  cases x with
  | error e => exact ⟨nofun, nofun⟩
  | ok b => rw [Except.mapError, Except.ok.injEq, Except.ok.injEq]

theorem Except.eq_ok_of_toOption {ε α : Type} {x : Except ε α} {a : α}
    (h : x.toOption = some a) : x = .ok a := by
  cases x with
  | error e => cases h
  | ok b => exact congrArg Except.ok (Option.some.inj h)

/-- What is computed of a result, if there is one, holds of a result. -/
theorem Except.of_any_toOption {ε α : Type} {x : Except ε α} {p : α → Bool}
    (h : x.toOption.any p = true) : ∃ a, x = .ok a ∧ p a = true := by
  obtain ⟨a, ha, hp⟩ := (Option.any_eq_true p x.toOption).mp h
  exact ⟨a, eq_ok_of_toOption ha, hp⟩

namespace CompilationUnit

/-- A unit that can be read has the tree of its entries, of which there is one at least. -/
theorem decode_eq_ok {s : Sections} {h : UnitHeader} {u : CompilationUnit}
    (hd : decode s h = .ok u) :
    u.header = h ∧ ∃ table, 0 < (Entry.readAll h table).entries.size ∧
      DieTree.ofEntries? (Entry.readAll h table).entries.toList = some u.tree := by
  unfold decode at hd
  split at hd
  · rename_i table _
    dsimp only at hd
    split at hd
    · rename_i hfirst
      have hsome := (Array.getElem?_eq_some_iff.mp hfirst).1
      split at hd
      · cases hd
      · split at hd
        all_goals
          obtain ⟨lowPc, -, hd⟩ := Except.bind_eq_ok hd
          split at hd
          · rename_i tree htree
            split at hd
            · cases hd
            · cases hd
              exact ⟨rfl, table, hsome, htree⟩
          · cases hd
    · cases hd
  · cases hd

end CompilationUnit

end DebugSymbols
