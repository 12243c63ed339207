import DebugSymbols.Proofs.Database.Lasting
import Mathlib.Data.List.TakeWhile

/-!
The order of members.  Whatever calls made a database, the members of each of its structures are
those that the calls gave it, sorted by their offsets; members at one offset stand in the order in
which they came.
-/

namespace DebugSymbols

namespace Database

/-! ## Sorting members -/

/-- The members by their offsets.  Those at one offset keep their order. -/
def sortMembers (members : List Member) : List Member :=
  members.mergeSort fun a b => a.offset ≤ b.offset

theorem offset_le_trans (a b c : Member) (h : decide (a.offset ≤ b.offset) = true)
    (h' : decide (b.offset ≤ c.offset) = true) : decide (a.offset ≤ c.offset) = true := by
  simp only [decide_eq_true_eq] at *
  exact UInt64.le_trans h h'

theorem offset_le_total (a b : Member) :
    (decide (a.offset ≤ b.offset) || decide (b.offset ≤ a.offset)) = true := by
  simpa using UInt64.le_total a.offset b.offset

theorem ascending_sortMembers (members : List Member) :
    (sortMembers members).Pairwise fun a b => a.offset ≤ b.offset := by
  unfold sortMembers
  simpa using List.pairwise_mergeSort offset_le_trans offset_le_total members

/-- Sorting leaves the members at an offset in their order. -/
theorem filter_sortMembers (members : List Member) (x : UInt64) :
    (sortMembers members).filter (·.offset = x) = members.filter (·.offset = x) := by
  have hsame : (members.filter (·.offset = x)).Pairwise
      fun a b => decide (a.offset ≤ b.offset) = true := by
    apply List.pairwise_of_forall_mem_list
    intro a ha b hb
    have hoffset : a.offset = b.offset := by
      simp only [List.mem_filter, decide_eq_true_eq] at ha hb
      rw [ha.2, hb.2]
    simp [hoffset]
  have hsublist : (members.filter (·.offset = x)).Sublist (sortMembers members) :=
    List.sublist_mergeSort offset_le_trans offset_le_total hsame List.filter_sublist
  have hfilter := hsublist.filter (·.offset = x)
  rw [List.filter_filter] at hfilter
  simp only [Bool.and_self] at hfilter
  have hperm := (List.mergeSort_perm members fun a b => a.offset ≤ b.offset).filter (·.offset = x)
  exact (hfilter.eq_of_length hperm.length_eq.symm).symm

theorem mem_iff_of_filter_eq {l r : List Member}
    (h : ∀ x, l.filter (·.offset = x) = r.filter (·.offset = x)) (a : Member) : a ∈ l ↔ a ∈ r := by
  have ha : a ∈ l.filter (·.offset = a.offset) ↔ a ∈ r.filter (·.offset = a.offset) := by
    rw [h a.offset]
  simpa using ha

theorem offset_head_le {a b : Member} {l : List Member}
    (hl : (a :: l).Pairwise fun a b => a.offset ≤ b.offset) (hb : b ∈ a :: l) :
    a.offset ≤ b.offset := by
  rcases List.mem_cons.mp hb with rfl | hb
  · exact UInt64.le_refl _
  · exact List.rel_of_pairwise_cons hl hb

/-- Sorted members are known by what stands at each offset. -/
theorem eq_of_filter_eq {l r : List Member} (hl : l.Pairwise fun a b => a.offset ≤ b.offset)
    (hr : r.Pairwise fun a b => a.offset ≤ b.offset)
    (h : ∀ x, l.filter (·.offset = x) = r.filter (·.offset = x)) : l = r := by
  have hmem := mem_iff_of_filter_eq h
  induction l generalizing r with
  | nil =>
    cases r with
    | nil => rfl
    | cons b r => simpa using hmem b
  | cons a l ih =>
    cases r with
    | nil => simpa using hmem a
    | cons b r =>
      have hoffset : b.offset = a.offset :=
        UInt64.le_antisymm (offset_head_le hr ((hmem a).mp List.mem_cons_self))
          (offset_head_le hl ((hmem b).mpr List.mem_cons_self))
      have hhead := h a.offset
      simp only [List.filter_cons, hoffset, decide_true, if_true, List.cons.injEq] at hhead
      obtain ⟨rfl, -⟩ := hhead
      have htail (x : UInt64) : l.filter (·.offset = x) = r.filter (·.offset = x) := by
        have hx := h x
        simp only [List.filter_cons] at hx
        split at hx
        · exact (List.cons.inj hx).2
        · exact hx
      rw [ih hl.of_cons hr.of_cons htail (mem_iff_of_filter_eq htail)]

/-! ## Inserting members -/

/-- Behind the place of a new member, offsets are greater. -/
theorem lt_of_mem_dropWhile {m other : Member} {members : List Member}
    (h : members.Pairwise fun a b => a.offset ≤ b.offset)
    (hmem : other ∈ members.dropWhile (·.offset ≤ m.offset)) : m.offset < other.offset := by
  induction members with
  | nil => cases hmem
  | cons a members ih =>
    obtain ⟨ha, hrest⟩ := List.pairwise_cons.mp h
    rw [List.dropWhile_cons] at hmem
    split at hmem
    · exact ih hrest hmem
    · rename_i hlt
      have hlt' : m.offset < a.offset := by simpa using hlt
      rcases List.mem_cons.mp hmem with rfl | hin
      · exact hlt'
      · exact Std.lt_of_lt_of_le hlt' (ha other hin)

theorem le_of_mem_takeWhile {m other : Member} {members : List Member}
    (hmem : other ∈ members.takeWhile (·.offset ≤ m.offset)) : other.offset ≤ m.offset := by
  simpa using List.mem_takeWhile_imp hmem

theorem ascending_insertMember {m : Member} {members : List Member}
    (h : members.Pairwise fun a b => a.offset ≤ b.offset) :
    (insertMember m members).Pairwise fun a b => a.offset ≤ b.offset := by
  have hsplit := List.takeWhile_append_dropWhile (p := (·.offset ≤ m.offset)) (l := members)
  have hparts := h
  rw [← hsplit, List.pairwise_append] at hparts
  obtain ⟨hbefore, hafter, hcross⟩ := hparts
  unfold insertMember
  rw [List.pairwise_append, List.pairwise_cons]
  refine ⟨hbefore, ⟨fun other hother => ?_, hafter⟩, fun a ha b hb => ?_⟩
  · exact UInt64.le_of_lt (lt_of_mem_dropWhile h hother)
  · rcases List.mem_cons.mp hb with rfl | hb
    · exact le_of_mem_takeWhile ha
    · exact hcross a ha b hb

/-- A new member comes last among those at its offset. -/
theorem filter_offset_insertMember {m : Member} {members : List Member}
    (h : members.Pairwise fun a b => a.offset ≤ b.offset) (x : UInt64) :
    (insertMember m members).filter (·.offset = x) =
      members.filter (·.offset = x) ++ [m].filter (·.offset = x) := by
  have hsplit := List.takeWhile_append_dropWhile (p := (·.offset ≤ m.offset)) (l := members)
  have hfilter : members.filter (·.offset = x) =
      (members.takeWhile (·.offset ≤ m.offset)).filter (·.offset = x) ++
        (members.dropWhile (·.offset ≤ m.offset)).filter (·.offset = x) := by
    rw [← List.filter_append, hsplit]
  rw [hfilter, insertMember, List.filter_append, List.filter_cons, List.filter_singleton]
  by_cases hm : m.offset = x
  · have hafter : (members.dropWhile (·.offset ≤ m.offset)).filter (·.offset = x) = [] := by
      rw [List.filter_eq_nil_iff]
      intro other hother
      have hlt := lt_of_mem_dropWhile h hother
      rw [hm] at hlt
      simpa using (Std.ne_of_lt hlt).symm
    rw [hafter]
    simp [hm]
  · simp [hm]

/-- A member of a new name keeps names distinct. -/
theorem nodup_insertMember {m : Member} {members : List Member}
    (h : (members.map (·.name)).Nodup) (hfresh : m.name ∉ members.map (·.name)) :
    ((insertMember m members).map (·.name)).Nodup := by
  have hperm : (insertMember m members).Perm (m :: members) := by
    have hsplit := List.takeWhile_append_dropWhile (p := (·.offset ≤ m.offset)) (l := members)
    have hmiddle : (insertMember m members).Perm
        (m :: (members.takeWhile (·.offset ≤ m.offset) ++
          members.dropWhile (·.offset ≤ m.offset))) := List.perm_middle
    rwa [hsplit] at hmiddle
  rw [(hperm.map (·.name)).nodup_iff, List.map_cons, List.nodup_cons]
  exact ⟨hfresh, h⟩

/-- Members that are inserted one after the other are sorted. -/
theorem foldl_insertMember (added : List Member) :
    added.foldl (fun members m => insertMember m members) [] = sortMembers added := by
  have hall (members : List Member) (h : members.Pairwise fun a b => a.offset ≤ b.offset) :
      (added.foldl (fun members m => insertMember m members) members).Pairwise
          (fun a b => a.offset ≤ b.offset) ∧
        ∀ x, (added.foldl (fun members m => insertMember m members) members).filter
          (·.offset = x) = members.filter (·.offset = x) ++ added.filter (·.offset = x) := by
    induction added generalizing members with
    | nil => exact ⟨h, by simp⟩
    | cons m added ih =>
      obtain ⟨hsorted, hfilter⟩ := ih (insertMember m members) (ascending_insertMember h)
      refine ⟨hsorted, fun x => ?_⟩
      rw [List.foldl_cons, hfilter, filter_offset_insertMember h, List.append_assoc,
        ← List.filter_append]
      rfl
  obtain ⟨hsorted, hfilter⟩ := hall [] .nil
  apply eq_of_filter_eq hsorted (ascending_sortMembers added)
  intro x
  rw [hfilter, filter_sortMembers]
  rfl

/-! ## The members of a structure -/

def membersOf (db : Database) (id : StructId) : List Member :=
  (db.structDef? id).elim [] (·.members)

variable {db db' : Database}

theorem membersOf_congr (h : db'.structs = db.structs) (id : StructId) :
    db'.membersOf id = db.membersOf id := by
  simp only [membersOf, structDef?, h]

/-- A new structure has no members. -/
theorem membersOf_addStruct? {name : Option String} {isUnion : Bool} {id' : StructId}
    (hc : db.Coherent) (h : db.addStruct? name isUnion = some (id', db')) (id : StructId) :
    db'.membersOf id = db.membersOf id := by
  obtain ⟨d, hadds⟩ := addsStruct hc h
  have hnone : db.structDef? id' = none := by simp [structDef?, hadds.id]
  unfold membersOf
  rw [hadds.structDef?]
  split
  · rename_i hid
    rw [hid, hnone]
    exact hadds.members
  · rfl

theorem membersOf_addStructMember? {id' : StructId} {m : Member}
    (h : db.addStructMember? id' m = some db') (id : StructId) :
    db'.membersOf id = if id' = id then insertMember m (db.membersOf id) else db.membersOf id := by
  obtain ⟨d, hadds⟩ := addsMember h
  have hknown := hadds.known
  unfold membersOf
  rw [hadds.structDef?]
  by_cases hid : id' = id
  · subst hid
    simp [hknown]
  · simp [hid, Ne.symm hid]

theorem not_mem_membersOf {id : StructId} {m : Member} (h : db.addStructMember? id m = some db') :
    m.name ∉ (db.membersOf id).map (·.name) := by
  obtain ⟨d, hadds⟩ := addsMember h
  have hknown := hadds.known
  intro hmem
  obtain ⟨other, hother, hname⟩ := List.mem_map.mp hmem
  simp only [membersOf, hknown, Option.elim_some] at hother
  exact hadds.fresh other hother hname

end Database

/-! ## Members that calls add -/

namespace Host

open Database

variable {h : Host}

/-- The member that a structure gets by a call, if the call is for that and is accepted. -/
def newMember? (h : Host) (id : StructId) (c : Call) : Option Member :=
  match c, (h.perform c).1 with
  | .addStructMember id' m, .flag true => if id' = id then some m else none
  | _, _ => none

/-- The members that a structure gets by calls, in their order. -/
def newMembers (h : Host) (id : StructId) : List Call → List Member
  | [] => []
  | c :: rest => (h.newMember? id c).toList ++ (h.perform c).2.newMembers id rest

theorem newMember?_eq_some {c : Call} {id : StructId} {m : Member} :
    h.newMember? id c = some m ↔
      c = .addStructMember id m ∧ ∃ h', h.addStructMember? id m = some h' := by
  constructor
  · intro hnew
    unfold newMember? at hnew
    split at hnew
    · rename_i id' m' hreply
      split at hnew
      · rename_i hid
        cases hnew
        subst hid
        refine ⟨rfl, ?_⟩
        cases hadd : h.addStructMember? id' m with
        | none => simp [perform, hadd, attempt] at hreply
        | some h' => exact ⟨h', rfl⟩
      · cases hnew
    · cases hnew
  · rintro ⟨rfl, h', hadd⟩
    simp [newMember?, perform, hadd, attempt]

theorem newMember?_eq_none {c : Call} (hc : ∀ id m, c ≠ .addStructMember id m) (id : StructId) :
    h.newMember? id c = none := by
  unfold newMember?
  split
  · exact absurd rfl (hc _ _)
  · rfl

/-- No call but those that add structures and members has to do with structures. -/
theorem Alters.structs {h' : Host} {c : Call} (ha : h.Alters c h')
    (hstruct : ∀ name isUnion, c ≠ .addStruct name isUnion)
    (hmember : ∀ id m, c ≠ .addStructMember id m) : h'.database.structs = h.database.structs := by
  cases ha with
  | struct => exact absurd rfl (hstruct _ _)
  | member => exact absurd rfl (hmember _ _)
  | namedType hadd =>
    obtain ⟨db, hdb, rfl⟩ := addNamedType?_eq_some hadd
    obtain ⟨-, -, rfl⟩ := Database.addNamedType?_eq_some hdb
    rfl
  | enum hadd =>
    obtain ⟨db, hdb, rfl⟩ := addEnum?_eq_some hadd
    obtain ⟨⟨taken, o, db₁⟩, hreserve, hpush⟩ := Option.bind_eq_some_iff.mp hdb
    cases hpush
    exact (reserve?_eq_some hreserve).2.2
  | constant hadd =>
    obtain ⟨db, hdb, rfl⟩ := addEnumConstant?_eq_some hadd
    obtain ⟨d, hadds⟩ := addsConstant hdb
    change db.structs = h.database.structs
    rw [hadds.eq]
  | nothing hsame => exact hsame.structs

/-- The members of a structure after a call: one more at most, in its place. -/
theorem membersOf_perform (hc : h.database.Coherent) (c : Call) (id : StructId) :
    (h.perform c).2.database.membersOf id =
      (h.newMember? id c).toList.foldl (fun members m => insertMember m members)
        (h.database.membersOf id) := by
  cases c with
  | addStructMember id' m =>
    unfold newMember?
    simp only [perform]
    cases hadd : h.addStructMember? id' m with
    | none => rfl
    | some h' =>
      obtain ⟨db, hdb, rfl⟩ := addStructMember?_eq_some hadd
      simp only [attempt]
      rw [membersOf_addStructMember? hdb]
      split <;> rfl
  | addStruct name isUnion =>
    rw [newMember?_eq_none (by simp)]
    refine of_hand (P := fun h' => h'.database.membersOf id = h.database.membersOf id) rfl ?_
    intro id' h' hadd
    obtain ⟨db, hdb, rfl⟩ := addStruct?_eq_some hadd
    exact membersOf_addStruct? hc hdb id
  | _ =>
    rw [newMember?_eq_none (by simp)]
    exact membersOf_congr ((alters_perform h _).structs (by simp) (by simp)) id

theorem membersOf_performAll (hc : h.database.Coherent) (calls : List Call) (id : StructId) :
    (h.performAll calls).database.membersOf id =
      (h.newMembers id calls).foldl (fun members m => insertMember m members)
        (h.database.membersOf id) := by
  induction calls generalizing h with
  | nil => rfl
  | cons c rest ih =>
    have hc' := (extends_perform hc c).coherent hc
    rw [newMembers, List.foldl_append, ← membersOf_perform hc c id]
    exact ih hc'

/-- The members of a structure are those that it was given, sorted. -/
theorem membersOf_built (pointerSize : UInt64) (calls : List Call) (id : StructId) :
    (built pointerSize calls).database.membersOf id =
      sortMembers ((ofDatabase (.empty pointerSize)).newMembers id calls) := by
  rw [built, membersOf_performAll (coherent_empty pointerSize), ← foldl_insertMember]
  rfl

end Host

end DebugSymbols
