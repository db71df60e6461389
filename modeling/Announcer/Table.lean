/-! # Tables

A table maps finitely many names to values and keeps its entries in name order, so that two
tables with the same lookups are the same table (`Table.ext_get?`).
-/
namespace Announcer

universe u

structure Table (β : Type u) where
  entries : List (String × β)
  ordered : entries.Pairwise (fun a b => a.1 < b.1)

namespace Table

variable {β : Type u}

def empty : Table β := ⟨[], .nil⟩

instance : Inhabited (Table β) := ⟨empty⟩

instance [DecidableEq β] : DecidableEq (Table β) := fun a b =>
  decidable_of_iff (a.entries = b.entries) (by cases a; cases b; simp)

def size (t : Table β) : Nat := t.entries.length

def isEmpty (t : Table β) : Bool := t.entries.isEmpty

def names (t : Table β) : List String := t.entries.map Prod.fst

def values (t : Table β) : List β := t.entries.map Prod.snd

def get? (t : Table β) (name : String) : Option β := t.entries.lookup name

def contains (t : Table β) (name : String) : Bool := (t.get? name).isSome

def put (name : String) (value : β) : List (String × β) → List (String × β)
  | [] => [(name, value)]
  | (key, old) :: rest =>
    if name < key then (name, value) :: (key, old) :: rest
    else if name = key then (name, value) :: rest
    else (key, old) :: put name value rest

theorem mem_put {name : String} {value : β} {entries : List (String × β)} {e : String × β}
    (h : e ∈ put name value entries) : e = (name, value) ∨ e ∈ entries := by
  induction entries with
  | nil => simpa [put] using h
  | cons head rest ih =>
    obtain ⟨key, old⟩ := head
    simp only [put] at h
    split at h
    · simpa using h
    · split at h <;> simp only [List.mem_cons] at h ⊢
      · exact h.imp_right Or.inr
      · rcases h with h | h
        · exact .inr (.inl h)
        · exact (ih h).imp_right Or.inr

theorem put_ordered (name : String) (value : β) {entries : List (String × β)}
    (h : entries.Pairwise (fun a b => a.1 < b.1)) :
    (put name value entries).Pairwise (fun a b => a.1 < b.1) := by
  induction entries with
  | nil => simp [put]
  | cons head rest ih =>
    obtain ⟨key, old⟩ := head
    obtain ⟨hhead, hrest⟩ := List.pairwise_cons.mp h
    simp only [put]
    split
    next hlt =>
      refine List.pairwise_cons.mpr ⟨fun e he => ?_, h⟩
      rcases List.mem_cons.mp he with rfl | he
      · exact hlt
      · exact String.lt_trans hlt (hhead e he)
    next hnlt =>
      split
      next heq => exact List.pairwise_cons.mpr ⟨heq ▸ hhead, hrest⟩
      next hne =>
        refine List.pairwise_cons.mpr ⟨fun e he => ?_, ih hrest⟩
        rcases mem_put he with rfl | he
        · rcases Decidable.em (key < name) with hlt | hn
          · exact hlt
          · exact absurd (String.le_antisymm (String.not_lt.mp hn) (String.not_lt.mp hnlt)) hne
        · exact hhead e he

def insert (t : Table β) (name : String) (value : β) : Table β :=
  ⟨put name value t.entries, put_ordered name value t.ordered⟩

def erase (t : Table β) (name : String) : Table β :=
  ⟨t.entries.filter (fun e => e.1 != name), t.ordered.filter _⟩

def ofList (pairs : List (String × β)) : Table β :=
  pairs.foldl (fun t e => t.insert e.1 e.2) empty

/-- The names of both tables; a name of both has its value from the second. -/
def override (t other : Table β) : Table β :=
  other.entries.foldl (fun t e => t.insert e.1 e.2) t

def map {γ : Type u} (f : β → γ) (t : Table β) : Table γ :=
  ⟨t.entries.map (fun e => (e.1, f e.2)), List.pairwise_map.mpr t.ordered⟩

theorem lookup_put (name key : String) (value : β) (entries : List (String × β)) :
    (put name value entries).lookup key =
      if key = name then some value else entries.lookup key := by
  induction entries with
  | nil => by_cases h : key = name <;> simp [put, h]
  | cons head rest ih =>
    obtain ⟨first, old⟩ := head
    simp only [put]
    by_cases h : key = name
    · subst h
      split
      · simp
      · split
        · simp
        next hne =>
          have : (key == first) = false := by simpa using hne
          simp [List.lookup_cons, this, ih]
    · have hb : (key == name) = false := by simpa using h
      split
      · simp [List.lookup_cons, hb]
      · split
        next heq => subst heq; simp [List.lookup_cons, hb]
        · simp [List.lookup_cons, ih, h]

@[simp] theorem get?_empty (key : String) : (empty : Table β).get? key = none := rfl

theorem get?_insert (t : Table β) (name key : String) (value : β) :
    (t.insert name value).get? key = if key = name then some value else t.get? key :=
  lookup_put name key value t.entries

@[simp] theorem get?_insert_self (t : Table β) (name : String) (value : β) :
    (t.insert name value).get? name = some value := by simp [get?_insert]

theorem get?_insert_of_ne (t : Table β) {name key : String} (value : β) (h : key ≠ name) :
    (t.insert name value).get? key = t.get? key := by simp [get?_insert, h]

theorem get?_foldl (pairs : List (String × β)) (t : Table β) (key : String) :
    (pairs.foldl (fun t e => t.insert e.1 e.2) t).get? key =
      (pairs.reverse.lookup key).or (t.get? key) := by
  induction pairs generalizing t with
  | nil => rfl
  | cons head rest ih =>
    obtain ⟨name, value⟩ := head
    rw [List.foldl_cons, ih, get?_insert, List.reverse_cons, List.lookup_append]
    by_cases h : key = name
    · simp [h]
    · simp [h, List.lookup_cons, beq_eq_false_iff_ne.mpr h]

theorem get?_ofList (pairs : List (String × β)) (key : String) :
    (ofList pairs).get? key = pairs.reverse.lookup key := by
  rw [ofList, get?_foldl, get?_empty, Option.or_none]

theorem mem_of_get?_ofList {pairs : List (String × β)} {key : String} {value : β}
    (h : (ofList pairs).get? key = some value) : (key, value) ∈ pairs := by
  rw [get?_ofList, List.lookup_eq_some_iff] at h
  obtain ⟨before, after, hpairs, -⟩ := h
  rw [← List.mem_reverse, hpairs]
  simp

theorem lookup_filter_ne (name key : String) (entries : List (String × β)) :
    (entries.filter (fun e => e.1 != name)).lookup key =
      if key = name then none else entries.lookup key := by
  induction entries with
  | nil => simp
  | cons head rest ih =>
    obtain ⟨first, old⟩ := head
    by_cases hf : first = name
    · subst hf
      rw [List.filter_cons_of_neg (by simp), ih]
      by_cases h : key = first
      · simp [h]
      · have : (key == first) = false := by simpa using h
        simp [h, List.lookup_cons, this]
    · rw [List.filter_cons_of_pos (by simpa using hf), List.lookup_cons, ih, List.lookup_cons]
      by_cases h : key = first
      · subst h; simp [hf]
      · have : (key == first) = false := by simpa using h
        simp [this]

theorem get?_erase (t : Table β) (name key : String) :
    (t.erase name).get? key = if key = name then none else t.get? key :=
  lookup_filter_ne name key t.entries

theorem get?_eq_some_iff {t : Table β} {name : String} {value : β} :
    t.get? name = some value ↔ (name, value) ∈ t.entries := by
  obtain ⟨entries, ordered⟩ := t
  simp only [get?]
  induction entries with
  | nil => simp
  | cons head rest ih =>
    obtain ⟨key, old⟩ := head
    obtain ⟨hhead, hrest⟩ := List.pairwise_cons.mp ordered
    rw [List.lookup_cons, List.mem_cons]
    by_cases h : name = key
    · subst h
      have hn : (name, value) ∉ rest := fun hm => String.lt_irrefl name (hhead _ hm)
      simp [hn, eq_comm]
    · have hb : (name == key) = false := by simpa using h
      simp [hb, h, ih hrest]

theorem entries_eq_of_mem_iff : ∀ {xs ys : List (String × β)},
    xs.Pairwise (fun a b => a.1 < b.1) → ys.Pairwise (fun a b => a.1 < b.1) →
    (∀ e, e ∈ xs ↔ e ∈ ys) → xs = ys
  | [], [], _, _, _ => rfl
  | [], y :: ys, _, _, h => absurd ((h y).mpr (by simp)) (by simp)
  | x :: xs, [], _, _, h => absurd ((h x).mp (by simp)) (by simp)
  | x :: xs, y :: ys, hx, hy, h => by
    obtain ⟨hxh, hxr⟩ := List.pairwise_cons.mp hx
    obtain ⟨hyh, hyr⟩ := List.pairwise_cons.mp hy
    have hxy : x = y := by
      rcases List.mem_cons.mp ((h x).mp (by simp)) with e | hm
      · exact e
      rcases List.mem_cons.mp ((h y).mpr (by simp)) with e | hm'
      · exact e.symm
      exact absurd (String.lt_trans (hyh x hm) (hxh y hm')) (String.lt_irrefl y.1)
    subst hxy
    refine congrArg (x :: ·) (entries_eq_of_mem_iff hxr hyr fun e => ⟨fun he => ?_, fun he => ?_⟩)
    · rcases List.mem_cons.mp ((h e).mp (List.mem_cons_of_mem _ he)) with rfl | hm
      · exact absurd (hxh e he) (String.lt_irrefl e.1)
      · exact hm
    · rcases List.mem_cons.mp ((h e).mpr (List.mem_cons_of_mem _ he)) with rfl | hm
      · exact absurd (hyh e he) (String.lt_irrefl e.1)
      · exact hm

theorem ext_get? {s t : Table β} (h : ∀ name, s.get? name = t.get? name) : s = t := by
  have he : s.entries = t.entries :=
    entries_eq_of_mem_iff s.ordered t.ordered fun e => by
      rw [← get?_eq_some_iff (t := s), ← get?_eq_some_iff (t := t), h]
  cases s; cases t; cases he; rfl

end Table

end Announcer
