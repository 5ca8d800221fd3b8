/-!
Tables from names to values. The entries stand in the order of their names, so two tables with the
same entries are equal, whatever the order in which they were put in.
-/
namespace LittleLang

/-- A finite map from names. -/
structure NameTable (α : Type) where
  entries : List (String × α)
  ordered : entries.Pairwise fun a b => a.1 < b.1

namespace NameTable

variable {α : Type}

/-- Puts a value into ordered entries, in the place of an entry of the same name if there is one. -/
def place (name : String) (value : α) : List (String × α) → List (String × α)
  | [] => [(name, value)]
  | entry :: rest =>
    if name < entry.1 then (name, value) :: entry :: rest
    else if name = entry.1 then (name, value) :: rest
    else entry :: place name value rest

theorem mem_of_mem_place {name : String} {value : α} {entries : List (String × α)}
    {entry : String × α} (h : entry ∈ place name value entries) :
    entry = (name, value) ∨ entry ∈ entries := by
  induction entries with
  | nil => exact .inl (List.mem_singleton.mp h)
  | cons first rest ih =>
    simp only [place] at h
    split at h
    · exact List.mem_cons.mp h
    · split at h
      · exact (List.mem_cons.mp h).imp id (List.mem_cons_of_mem _)
      · rcases List.mem_cons.mp h with h | h
        · exact .inr (h ▸ List.mem_cons_self)
        · exact (ih h).imp id (List.mem_cons_of_mem _)

theorem place_ordered (name : String) (value : α) {entries : List (String × α)}
    (h : entries.Pairwise fun a b => a.1 < b.1) :
    (place name value entries).Pairwise fun a b => a.1 < b.1 := by
  induction entries with
  | nil => simp [place]
  | cons first rest ih =>
    obtain ⟨above, later⟩ := List.pairwise_cons.mp h
    simp only [place]
    split
    · rename_i below
      refine List.pairwise_cons.mpr ⟨?_, h⟩
      intro entry mem
      rcases List.mem_cons.mp mem with rfl | mem
      · exact below
      · exact String.lt_trans below (above entry mem)
    · rename_i notBelow
      split
      · rename_i same
        exact List.pairwise_cons.mpr ⟨fun entry mem => by simpa [same] using above entry mem, later⟩
      · rename_i different
        refine List.pairwise_cons.mpr ⟨?_, ih later⟩
        intro entry mem
        rcases mem_of_mem_place mem with rfl | mem
        · refine Decidable.byContradiction fun notAbove => different ?_
          exact String.le_antisymm (String.not_lt.mp notAbove) (String.not_lt.mp notBelow)
        · exact above entry mem

/-- The table without entries. -/
def empty : NameTable α := ⟨[], .nil⟩

/-- Puts a value under a name, in the place of an earlier value of that name. -/
def insert (table : NameTable α) (name : String) (value : α) : NameTable α :=
  ⟨place name value table.entries, place_ordered name value table.ordered⟩

/-- The table of the listed entries; of two with one name the later counts. -/
def ofList (entries : List (String × α)) : NameTable α :=
  entries.foldl (fun table entry => table.insert entry.1 entry.2) empty

/-- The value under a name. -/
def get? (table : NameTable α) (name : String) : Option α :=
  (table.entries.find? (·.1 = name)).map (·.2)

theorem mem_of_get? {table : NameTable α} {name : String} {value : α}
    (h : table.get? name = some value) : (name, value) ∈ table.entries := by
  obtain ⟨⟨key, value⟩, found, rfl⟩ := Option.map_eq_some_iff.mp h
  have same : key = name := by simpa using List.find?_some found
  exact same ▸ List.mem_of_find?_eq_some found

theorem mem_of_mem_foldl_insert {entries : List (String × α)} {table : NameTable α}
    {entry : String × α}
    (h : entry ∈ (entries.foldl (fun table e => table.insert e.1 e.2) table).entries) :
    entry ∈ table.entries ∨ entry ∈ entries := by
  induction entries generalizing table with
  | nil => exact .inl h
  | cons first entries ih =>
    rcases ih h with mem | mem
    · rcases mem_of_mem_place mem with rfl | mem
      · exact .inr List.mem_cons_self
      · exact .inl mem
    · exact .inr (List.mem_cons_of_mem _ mem)

/-- A table has no entries but the listed ones. -/
theorem mem_of_mem_ofList {entries : List (String × α)} {entry : String × α}
    (h : entry ∈ (ofList entries).entries) : entry ∈ entries :=
  (mem_of_mem_foldl_insert h).resolve_left List.not_mem_nil

/-- Whether there is a value under a name. -/
def contains (table : NameTable α) (name : String) : Bool := (table.get? name).isSome

/-- The names, in their order. -/
def names (table : NameTable α) : List String := table.entries.map (·.1)

/-- How many names have a value. -/
def size (table : NameTable α) : Nat := table.entries.length

end NameTable

end LittleLang
