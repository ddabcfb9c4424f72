import Mathlib
import ManifestAssist.Metrics.Registry

/-! # Look-ups in a registry

What a registry holds of a name after a change. The order of the entries plays no part in it.
-/

namespace ManifestAssist.Registry

variable {α : Type} {r : Registry α} {name x : String} {value default : α} {f : α → α}
  {entries : List (String × α)}

theorem lookup_cons_eq_ite :
    ((name, value) :: entries).lookup x = if x = name then some value else entries.lookup x := by
  by_cases hx : x = name
  · simp [hx]
  · have hbeq : (x == name) = false := by simpa using hx
    simp [List.lookup_cons, hbeq, hx]

theorem lookup_put :
    (put name value entries).lookup x = if x = name then some value else entries.lookup x := by
  induction entries with
  | nil => exact lookup_cons_eq_ite
  | cons entry rest ih =>
    obtain ⟨name', value'⟩ := entry
    unfold put
    split
    · exact lookup_cons_eq_ite
    · split
      · subst name'
        simp only [lookup_cons_eq_ite]
        split <;> rfl
      · rename_i hne
        simp only [lookup_cons_eq_ite, ih]
        grind

theorem lookup_filter_ne :
    (entries.filter (·.1 != name)).lookup x = if x = name then none else entries.lookup x := by
  induction entries with
  | nil => simp
  | cons entry rest ih =>
    obtain ⟨name', value'⟩ := entry
    by_cases hname : name' = name
    · rw [List.filter_cons_of_neg (by simpa using hname), ih, lookup_cons_eq_ite]
      grind
    · rw [List.filter_cons_of_pos (by simpa using hname), lookup_cons_eq_ite, ih,
        lookup_cons_eq_ite]
      grind

theorem find?_insert : (r.insert name value).find? x = if x = name then some value else r.find? x :=
  lookup_put

theorem find?_erase : (r.erase name).find? x = if x = name then none else r.find? x :=
  lookup_filter_ne

theorem find?_modify : (r.modify name default f).find? x =
    if x = name then some (f ((r.find? name).getD default)) else r.find? x :=
  find?_insert

@[simp] theorem contains_insert : (r.insert name value).contains x ↔ x = name ∨ r.contains x := by
  rw [contains, find?_insert]
  by_cases hx : x = name <;> simp [hx, contains]

@[simp] theorem contains_erase : (r.erase name).contains x ↔ x ≠ name ∧ r.contains x := by
  rw [contains, find?_erase]
  by_cases hx : x = name <;> simp [hx, contains]

@[simp] theorem contains_modify :
    (r.modify name default f).contains x ↔ x = name ∨ r.contains x :=
  contains_insert

theorem lookup_eq_none_of_lt (h : ∀ entry ∈ entries, name < entry.1) :
    entries.lookup name = none := by
  rw [List.lookup_eq_none_iff]
  intro entry hmem
  simpa using Std.ne_of_lt (h entry hmem)

theorem mem_entries_iff : (name, value) ∈ r.entries ↔ r.find? name = some value := by
  obtain ⟨entries, hascending⟩ := r
  unfold find?
  change (name, value) ∈ entries ↔ entries.lookup name = some value
  induction entries with
  | nil => simp
  | cons entry rest ih =>
    obtain ⟨name', value'⟩ := entry
    obtain ⟨hlt, hrest⟩ := List.pairwise_cons.mp hascending
    rw [lookup_cons_eq_ite, List.mem_cons]
    split
    · next heq =>
      subst heq
      have hnot : (name, value) ∉ rest := fun hmem => lt_irrefl name (hlt _ hmem)
      simp [hnot, eq_comm]
    · next hne => simp [hne, ih hrest]

theorem mem_names_iff : name ∈ r.names ↔ r.contains name := by
  simp only [names, List.mem_map, Prod.exists, exists_and_right, exists_eq_right, mem_entries_iff,
    contains, Option.isSome_iff_exists]

theorem filter_entries_eq (r : Registry α) (name : String) :
    r.entries.filter (·.1 == name) = ((r.find? name).map fun value => (name, value)).toList := by
  obtain ⟨entries, hascending⟩ := r
  unfold find?
  change entries.filter _ = ((entries.lookup name).map _).toList
  induction entries with
  | nil => rfl
  | cons entry rest ih =>
    obtain ⟨name', value'⟩ := entry
    obtain ⟨hlt, hrest⟩ := List.pairwise_cons.mp hascending
    rw [lookup_cons_eq_ite, List.filter_cons, ih hrest]
    by_cases hname : name = name'
    · subst hname
      simp [lookup_eq_none_of_lt hlt]
    · simp [hname, Ne.symm hname]

theorem find?_union (r s : Registry α) (x : String) :
    (r.union s).find? x = (s.find? x).or (r.find? x) := by
  obtain ⟨entries, hascending⟩ := s
  unfold union
  rw [find?]
  change _ = (entries.lookup x).or _
  induction entries generalizing r with
  | nil => rfl
  | cons entry rest ih =>
    obtain ⟨name, value⟩ := entry
    obtain ⟨hlt, hrest⟩ := List.pairwise_cons.mp hascending
    rw [List.foldl_cons, ih _ hrest, lookup_cons_eq_ite, find?_insert]
    by_cases hx : x = name
    · rw [hx, lookup_eq_none_of_lt hlt, if_pos rfl, if_pos rfl]
      rfl
    · rw [if_neg hx, if_neg hx]

theorem put_eq_append (h : ∀ entry ∈ entries, entry.1 < name) :
    put name value entries = entries ++ [(name, value)] := by
  induction entries with
  | nil => rfl
  | cons entry rest ih =>
    obtain ⟨hlt, hrest⟩ := List.forall_mem_cons.mp h
    rw [put, if_neg (lt_asymm hlt), if_neg (ne_of_gt hlt), ih hrest, List.cons_append]

theorem entries_foldl_insert (r : Registry α)
    (h : (r.entries ++ entries).Pairwise (·.1 < ·.1)) :
    (entries.foldl (fun r (name, value) => r.insert name value) r).entries =
      r.entries ++ entries := by
  induction entries generalizing r with
  | nil => exact (List.append_nil _).symm
  | cons entry rest ih =>
    obtain ⟨name, value⟩ := entry
    have hahead : ∀ entry ∈ r.entries, entry.1 < name := fun entry hmem =>
      (List.pairwise_append.mp h).2.2 entry hmem (name, value) List.mem_cons_self
    have hput : (r.insert name value).entries = r.entries ++ [(name, value)] := put_eq_append hahead
    rw [List.foldl_cons, ih, hput, List.append_assoc, List.singleton_append]
    rwa [hput, List.append_assoc, List.singleton_append]

@[ext] theorem ext {r s : Registry α} (h : r.entries = s.entries) : r = s := by
  cases r
  cases s
  congr

/-- What a registry holds of each name makes it up. -/
theorem ext_find? {r s : Registry α} (h : ∀ x, r.find? x = s.find? x) : r = s := by
  have hnodup (r : Registry α) : r.entries.Nodup := by
    refine r.ascending.imp ?_
    rintro entry _ hlt rfl
    exact lt_irrefl _ hlt
  have hperm : r.entries.Perm s.entries := by
    apply (List.perm_ext_iff_of_nodup (hnodup r) (hnodup s)).mpr
    rintro ⟨name, value⟩
    rw [mem_entries_iff, mem_entries_iff, h]
  ext1
  exact hperm.eq_of_pairwise (fun _ _ _ _ hlt hgt => absurd hgt (lt_asymm hlt)) r.ascending
    s.ascending

theorem modify_modify_comm {name' : String} {g : α → α}
    (h : name = name' → ∀ value, g (f value) = f (g value)) :
    (r.modify name default f).modify name' default g =
      (r.modify name' default g).modify name default f := by
  apply ext_find?
  intro x
  simp only [find?_modify]
  by_cases hname : name = name'
  · subst hname
    split
    · simp [h rfl]
    · rfl
  · rw [if_neg (Ne.symm hname), if_neg hname]
    split
    · next hx => rw [if_neg (hx ▸ Ne.symm hname)]
    · rfl

theorem ofList_entries (r : Registry α) : ofList r.entries = r := by
  ext1
  exact entries_foldl_insert ∅ r.ascending

end ManifestAssist.Registry
