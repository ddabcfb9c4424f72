/-! # Registries

Values by name, in the order of the names. Each name stands once, so two registries with the same
values are equal.
-/

namespace ManifestAssist

/-- Values with names that ascend. -/
structure Registry (α : Type) where
  entries : List (String × α)
  ascending : entries.Pairwise (·.1 < ·.1)

namespace Registry

variable {α : Type}

def empty : Registry α :=
  ⟨[], .nil⟩

instance : EmptyCollection (Registry α) :=
  ⟨empty⟩

def find? (r : Registry α) (name : String) : Option α :=
  r.entries.lookup name

def contains (r : Registry α) (name : String) : Bool :=
  (r.find? name).isSome

/-- Puts a value at its place among ascending names, in the place of one with its name. -/
def put (name : String) (value : α) : List (String × α) → List (String × α)
  | [] => [(name, value)]
  | (name', value') :: rest =>
    if name < name' then (name, value) :: (name', value') :: rest
    else if name = name' then (name, value) :: rest
    else (name', value') :: put name value rest

theorem fst_mem_put {name x : String} {value v : α} {entries : List (String × α)}
    (h : (x, v) ∈ put name value entries) : x = name ∨ ∃ v, (x, v) ∈ entries := by
  induction entries with
  | nil => simp_all [put]
  | cons e rest ih =>
    simp only [put] at h
    split at h
    · grind
    · split at h <;> grind

theorem ascending_put {name : String} {value : α} {entries : List (String × α)}
    (h : entries.Pairwise (·.1 < ·.1)) : (put name value entries).Pairwise (·.1 < ·.1) := by
  induction entries with
  | nil => simp [put]
  | cons e rest ih =>
    obtain ⟨hlt, hrest⟩ := List.pairwise_cons.1 h
    simp only [put]
    split
    · next hn =>
      refine List.pairwise_cons.2 ⟨?_, h⟩
      intro x hx
      rcases List.mem_cons.1 hx with rfl | hx
      · exact hn
      · exact String.lt_trans hn (hlt x hx)
    · split
      · next heq =>
        subst heq
        exact List.pairwise_cons.2 ⟨hlt, hrest⟩
      · next hn hne =>
        refine List.pairwise_cons.2 ⟨?_, ih hrest⟩
        rintro ⟨x, v⟩ hx
        rcases fst_mem_put hx with rfl | ⟨w, hw⟩
        · exact Std.lt_of_le_of_ne (Std.not_lt.1 hn) (Ne.symm hne)
        · exact (hlt (x, w) hw :)

def insert (r : Registry α) (name : String) (value : α) : Registry α :=
  ⟨put name value r.entries, ascending_put r.ascending⟩

def erase (r : Registry α) (name : String) : Registry α :=
  ⟨r.entries.filter (·.1 != name), r.ascending.filter _⟩

/-- Changes the value of a name, which is `default` if there is none yet. -/
def modify (r : Registry α) (name : String) (default : α) (f : α → α) : Registry α :=
  r.insert name (f ((r.find? name).getD default))

/-- The later of two values of one name counts. -/
def ofList (entries : List (String × α)) : Registry α :=
  entries.foldl (fun r (name, value) => r.insert name value) ∅

/-- All values of both registries, where those of the second count. -/
def union (r s : Registry α) : Registry α :=
  s.entries.foldl (fun r (name, value) => r.insert name value) r

def names (r : Registry α) : List String :=
  r.entries.map (·.1)

end Registry

end ManifestAssist
