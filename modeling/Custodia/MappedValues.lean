import Mathlib.Data.List.AList

/-! # MappedValues — finite maps seen through a function on their values

    Two finite maps with the same keys in the same order are often two views
    of one map. `mapValues f` is such a view; looking up, inserting and
    erasing commute with it, so what an algorithm does to the keys it does to
    every view alike. -/

namespace MappedValues

variable {α β γ : Type}

/-- One entry with its value replaced. -/
def mapEntry (f : β → γ) (e : Sigma (fun _ : α => β)) : Sigma (fun _ : α => γ) := ⟨e.1, f e.2⟩

/-- Replacing the values of a list of entries leaves its keys as they are, in
    the same order; this is why the view is a map again. -/
theorem keys_mapEntry (f : β → γ) (l : List (Sigma (fun _ : α => β))) :
    (l.map (mapEntry f)).keys = l.keys := by
  rw [List.keys, List.map_map]
  rfl

/-- The map with every value replaced by its image. -/
def mapValues (f : β → γ) (t : AList (fun _ : α => β)) : AList (fun _ : α => γ) :=
  ⟨t.entries.map (mapEntry f), by
    rw [List.NodupKeys, keys_mapEntry]
    exact t.nodupKeys⟩

variable (f : β → γ) (t : AList (fun _ : α => β))

/-- The entries of the view are the entries of the map, each with its value
    replaced. -/
theorem entries_mapValues : (mapValues f t).entries = t.entries.map (mapEntry f) := rfl

/-- The view has exactly the keys of the map. -/
@[simp] theorem mem_mapValues {a : α} : a ∈ mapValues f t ↔ a ∈ t := by
  show a ∈ (t.entries.map (mapEntry f)).keys ↔ a ∈ t.entries.keys
  rw [keys_mapEntry]

/-- The view of the empty map is empty. -/
@[simp] theorem mapValues_empty : mapValues f (∅ : AList (fun _ : α => β)) = ∅ := rfl

variable [DecidableEq α]

private theorem dlookup_map (a : α) (l : List (Sigma (fun _ : α => β))) :
    List.dlookup a (l.map (mapEntry f)) = (List.dlookup a l).map f := by
  induction l with
  | nil => rfl
  | cons e l ih =>
      obtain ⟨b, v⟩ := e
      rw [List.map_cons]
      by_cases h : a = b
      · subst h
        exact (List.dlookup_cons_eq _ _ _).trans
          (congrArg (Option.map f) (List.dlookup_cons_eq l a v)).symm
      · refine (List.dlookup_cons_ne _ (mapEntry f ⟨b, v⟩) h).trans (ih.trans ?_)
        exact (congrArg (Option.map f) (List.dlookup_cons_ne l ⟨b, v⟩ h)).symm

/-- **Looking up commutes with the view**: what is found under a key is the
    image of what the map has there, and nothing where the map has nothing. -/
theorem lookup_mapValues (a : α) : (mapValues f t).lookup a = (t.lookup a).map f :=
  dlookup_map f a t.entries

private theorem kerase_map (a : α) (l : List (Sigma (fun _ : α => β))) :
    List.kerase a (l.map (mapEntry f)) = (List.kerase a l).map (mapEntry f) := by
  induction l with
  | nil => rfl
  | cons e l ih =>
      rw [List.map_cons]
      by_cases h : a = e.1
      · rw [List.kerase_cons_eq (by exact h), List.kerase_cons_eq (by exact h)]
      · rw [List.kerase_cons_ne (by exact h), List.kerase_cons_ne (by exact h), List.map_cons, ih]

/-- **Erasing commutes with the view**: a key that is erased from the map is
    erased from every view of it. -/
theorem mapValues_erase (a : α) : mapValues f (t.erase a) = (mapValues f t).erase a :=
  AList.ext (kerase_map f a t.entries).symm

/-- **Inserting commutes with the view**: a value that is put into the map
    appears in the view as its image, under the same key. -/
theorem mapValues_insert (a : α) (v : β) :
    mapValues f (t.insert a v) = (mapValues f t).insert a (f v) := by
  refine AList.ext ?_
  show mapEntry f ⟨a, v⟩ :: (List.kerase a t.entries).map (mapEntry f) = _
  rw [← kerase_map]
  rfl

end MappedValues
