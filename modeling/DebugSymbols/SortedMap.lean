/-!
Finite maps kept as a list of entries in strictly ascending key order, so that the entry list
is the map read out in order and two maps with the same answers are equal.
Main statements: `get?_insert` gives the answers after an insertion, `ext` that answers
determine the map.
-/

namespace DebugSymbols

universe u v

/-- A finite map from `κ` to `ν`. -/
structure SortedMap (κ : Type u) (ν : Type v) [LT κ] where
  entries : List (κ × ν)
  ascending : entries.Pairwise (fun a b => a.1 < b.1)

namespace SortedMap

variable {κ : Type u} {ν : Type v}

/-! ## Entry lists -/

/-- The value of the first entry with key `k`. -/
def find [DecidableEq κ] (k : κ) : List (κ × ν) → Option ν
  | [] => none
  | e :: rest => if k = e.1 then some e.2 else find k rest

/-- Puts an entry in its place, over an entry of the same key. -/
def put [LT κ] [DecidableLT κ] [DecidableEq κ] (k : κ) (v : ν) : List (κ × ν) → List (κ × ν)
  | [] => [(k, v)]
  | e :: rest =>
    if k < e.1 then (k, v) :: e :: rest
    else if k = e.1 then (k, v) :: rest
    else e :: put k v rest

theorem find_put [LT κ] [DecidableLT κ] [DecidableEq κ] (k j : κ) (v : ν) (l : List (κ × ν)) :
    find j (put k v l) = if j = k then some v else find j l := by
  induction l <;> grind [find, put]

theorem mem_put [LT κ] [DecidableLT κ] [DecidableEq κ] {k : κ} {v : ν} {l : List (κ × ν)}
    {x : κ × ν} (h : x ∈ put k v l) : x = (k, v) ∨ x ∈ l := by
  induction l <;> grind [put]

theorem find_filter [DecidableEq κ] (k j : κ) (l : List (κ × ν)) :
    find j (l.filter (·.1 ≠ k)) = if j = k then none else find j l := by
  induction l <;> grind [find]

section Order

variable [LE κ] [LT κ] [Std.IsLinearOrder κ] [Std.LawfulOrderLT κ]

theorem ascending_put [DecidableLT κ] [DecidableEq κ] (k : κ) (v : ν) {l : List (κ × ν)}
    (h : l.Pairwise (fun a b => a.1 < b.1)) :
    (put k v l).Pairwise (fun a b => a.1 < b.1) := by
  induction l with
  | nil => simp [put]
  | cons e rest ih =>
    obtain ⟨he, hr⟩ := List.pairwise_cons.1 h
    unfold put
    split
    · refine List.pairwise_cons.2 ⟨fun x hx => ?_, h⟩
      rcases List.mem_cons.1 hx with rfl | hx
      · assumption
      · have := he x hx
        grind
    · split
      · rename_i hk
        subst hk
        exact List.pairwise_cons.2 ⟨he, hr⟩
      · refine List.pairwise_cons.2 ⟨fun x hx => ?_, ih hr⟩
        rcases mem_put hx with rfl | hx
        · grind
        · exact he x hx

theorem find_eq_none_of_lt [DecidableEq κ] {l : List (κ × ν)} {k : κ} (h : ∀ x ∈ l, k < x.1) :
    find k l = none := by
  induction l with
  | nil => rfl
  | cons e rest ih =>
    have hk : k < e.1 := h e (by simp)
    have hne : k ≠ e.1 := by grind
    simp [find, hne, ih fun x hx => h x (by simp [hx])]

/-- An ascending entry list is determined by the values found in it. -/
theorem eq_of_find_eq [DecidableEq κ] {l r : List (κ × ν)}
    (hl : l.Pairwise (fun a b => a.1 < b.1)) (hr : r.Pairwise (fun a b => a.1 < b.1))
    (h : ∀ k, find k l = find k r) : l = r := by
  induction l generalizing r with
  | nil =>
    cases r with
    | nil => rfl
    | cons e _ => simpa [find] using h e.1
  | cons d l ih =>
    cases r with
    | nil => simpa [find] using h d.1
    | cons e r =>
      obtain ⟨hd, hl⟩ := List.pairwise_cons.1 hl
      obtain ⟨he, hr⟩ := List.pairwise_cons.1 hr
      have key : d.1 = e.1 := by
        rcases Std.lt_trichotomy d.1 e.1 with hlt | heq | hgt
        · have hnone : find d.1 (e :: r) = none := find_eq_none_of_lt fun x hx => by
            have := he x
            grind
          have := h d.1
          rw [hnone] at this
          simp [find] at this
        · exact heq
        · have hnone : find e.1 (d :: l) = none := find_eq_none_of_lt fun x hx => by
            have := hd x
            grind
          have := h e.1
          rw [hnone] at this
          simp [find] at this
      have value : d.2 = e.2 := by simpa [find, key] using h e.1
      have tail : l = r := ih hl hr fun k => by
        by_cases hk : k = e.1
        · subst hk
          rw [find_eq_none_of_lt he, find_eq_none_of_lt (key ▸ hd)]
        · simpa [find, key, hk] using h k
      rw [tail, Prod.ext key value]

end Order

/-! ## Maps -/

section Read

variable [LT κ]

def empty : SortedMap κ ν := ⟨[], .nil⟩

instance : Inhabited (SortedMap κ ν) := ⟨empty⟩

def toList (m : SortedMap κ ν) : List (κ × ν) := m.entries

def size (m : SortedMap κ ν) : Nat := m.entries.length

def get? [DecidableEq κ] (m : SortedMap κ ν) (k : κ) : Option ν := find k m.entries

def contains [DecidableEq κ] (m : SortedMap κ ν) (k : κ) : Bool := (m.get? k).isSome

/-- The entry with the greatest key that is not above `k`. -/
def last? [DecidableLT κ] (m : SortedMap κ ν) (k : κ) : Option (κ × ν) :=
  (m.entries.takeWhile fun e => !decide (k < e.1)).getLast?

/-- Maps `k` to nothing. -/
def erase [DecidableEq κ] (m : SortedMap κ ν) (k : κ) : SortedMap κ ν :=
  ⟨m.entries.filter (·.1 ≠ k), m.ascending.filter _⟩

theorem get?_erase [DecidableEq κ] (m : SortedMap κ ν) (k j : κ) :
    (m.erase k).get? j = if j = k then none else m.get? j :=
  find_filter k j m.entries

@[simp] theorem get?_empty [DecidableEq κ] (k : κ) : (empty : SortedMap κ ν).get? k = none := rfl

end Read

section Write

variable [LE κ] [LT κ] [DecidableLT κ] [DecidableEq κ] [Std.IsLinearOrder κ] [Std.LawfulOrderLT κ]

/-- Maps `k` to `v`, whatever it was mapped to before. -/
def insert (m : SortedMap κ ν) (k : κ) (v : ν) : SortedMap κ ν :=
  ⟨put k v m.entries, ascending_put k v m.ascending⟩

theorem get?_insert (m : SortedMap κ ν) (k j : κ) (v : ν) :
    (m.insert k v).get? j = if j = k then some v else m.get? j :=
  find_put k j v m.entries

@[simp] theorem get?_insert_self (m : SortedMap κ ν) (k : κ) (v : ν) :
    (m.insert k v).get? k = some v := by
  simp [get?_insert]

end Write

theorem ext [LE κ] [LT κ] [DecidableEq κ] [Std.IsLinearOrder κ] [Std.LawfulOrderLT κ]
    {m n : SortedMap κ ν} (h : ∀ k, m.get? k = n.get? k) : m = n := by
  cases m
  cases n
  rename_i hm _ hn
  have := eq_of_find_eq hm hn h
  subst this
  rfl

end SortedMap

end DebugSymbols
