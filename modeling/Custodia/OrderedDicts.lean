import Mathlib.Data.List.Basic
import Mathlib.Data.List.Induction
import Mathlib.Data.List.Nodup

/-! # OrderedDicts — dictionaries that keep the order of insertion

    A dictionary is the list of its items in the order in which their names
    were first set. It compares names by a key: itself, or what is left of the
    name when its case is ignored. An item that is set again stays where it
    is, under the name it is set with.

    One dictionary can be written to another that compares names by a coarser
    key. Several of its names are then one, and the last of them prevails.

    * `Dict`: dictionaries, with `set`, `get?` and `update`;
    * `lastEntry`: the name that prevails under a coarser key;
    * `get?_update`: what is read after one dictionary is written to another;
    * `last_set_self`, `last_set_of_hidden`: what is read of a name that is set
      under the finer key. -/

namespace OrderedDicts

variable {ν κ κ' β : Type} [DecidableEq κ] [DecidableEq κ']

/-! ## Items -/

/-- The first item with the key of a name. -/
def entry (key : ν → κ) (items : List (ν × β)) (name : ν) : Option (ν × β) :=
  items.find? (fun i => decide (key i.1 = key name))

/-- The item that is written in the place of another. -/
def replaced (key : ν → κ) (name : ν) (value : β) (i : ν × β) : ν × β :=
  if key i.1 = key name then (name, value) else i

/-- The items after one is set. -/
def setItem (key : ν → κ) (items : List (ν × β)) (name : ν) (value : β) : List (ν × β) :=
  if key name ∈ items.map (fun i => key i.1) then items.map (replaced key name value)
  else items ++ [(name, value)]

section Items

variable (key : ν → κ) (items : List (ν × β)) (name other : ν) (value : β)

/-- Replacing an item leaves its key alone. -/
theorem key_replaced (i : ν × β) : key (replaced key name value i).1 = key i.1 := by
  rw [replaced]
  split_ifs with h
  · exact h.symm
  · rfl

/-- The first of the items under a name is the first in either part. -/
theorem entry_append (more : List (ν × β)) :
    entry key (items ++ more) name = (entry key items name).or (entry key more name) :=
  List.find?_append

/-- Nothing is found under a name exactly if no item has its key. -/
theorem entry_eq_none_iff :
    entry key items name = none ↔ key name ∉ items.map (fun i => key i.1) := by
  rw [entry, List.find?_eq_none]
  constructor
  · intro h hmem
    obtain ⟨i, hi, hkey⟩ := List.mem_map.mp hmem
    exact h i hi (decide_eq_true hkey)
  · intro h i hi hkey
    exact h (List.mem_map.mpr ⟨i, hi, of_decide_eq_true hkey⟩)

variable {key items name} in
/-- What is found under a name has the same key as the name. -/
theorem key_of_entry {i : ν × β} (h : entry key items name = some i) : key i.1 = key name :=
  of_decide_eq_true (List.find?_some (p := fun i : ν × β => decide (key i.1 = key name)) h)

/-- Items are found where they stood before one was replaced, by any key that
    is no finer. -/
theorem entry_map_replaced {coarse : ν → κ'}
    (hcoarse : ∀ a b, key a = key b → coarse a = coarse b) :
    entry coarse (items.map (replaced key name value)) other
      = (entry coarse items other).map (replaced key name value) := by
  have hsame : (fun i : ν × β => decide (coarse i.1 = coarse other)) ∘ replaced key name value
      = fun i => decide (coarse i.1 = coarse other) := by
    funext i
    rw [Function.comp_apply, hcoarse _ _ (key_replaced key name value i)]
  rw [entry, List.find?_map, hsame]
  rfl

/-- **Setting keeps the keys different**: an old item is replaced where it
    stands, and a new one is added only where there was none. -/
theorem nodup_setItem (h : (items.map (fun i => key i.1)).Nodup) :
    ((setItem key items name value).map (fun i => key i.1)).Nodup := by
  rw [setItem]
  split_ifs with hmem
  · rw [List.map_map]
    refine (congrArg List.Nodup (List.map_congr_left fun i _ => ?_)).mpr h
    exact key_replaced key name value i
  · rw [List.map_append, List.map_singleton]
    refine List.nodup_append.mpr ⟨h, List.nodup_singleton _, fun a ha b hb => ?_⟩
    rw [List.mem_singleton.mp hb]
    rintro rfl
    exact hmem ha

omit [DecidableEq κ] in
variable {key items} in
/-- Other values leave the keys different. -/
theorem nodup_mapValues {γ : Type} (f : β → γ) (h : (items.map (fun i => key i.1)).Nodup) :
    ((items.map (fun i => (i.1, f i.2))).map (fun i => key i.1)).Nodup := by
  rw [List.map_map]
  exact h

/-- The items that have a value, with this value. -/
def presentItems (items : List (ν × Option β)) : List (ν × β) :=
  items.filterMap (fun i => i.2.map (fun v => (i.1, v)))

omit [DecidableEq κ] in
/-- A key that is not there is not among those of the items with a value. -/
theorem key_not_mem_presentItems {k : κ} {items : List (ν × Option β)}
    (h : k ∉ items.map (fun i => key i.1)) :
    k ∉ (presentItems items).map (fun i => key i.1) := by
  intro hmem
  obtain ⟨i, hi, rfl⟩ := List.mem_map.mp hmem
  obtain ⟨j, hj, hji⟩ := List.mem_filterMap.mp hi
  obtain ⟨v, -, rfl⟩ := Option.map_eq_some_iff.mp hji
  exact h (List.mem_map.mpr ⟨j, hj, rfl⟩)

omit [DecidableEq κ] in
variable {key} in
/-- Leaving items out keeps the keys different. -/
theorem nodup_presentItems {items : List (ν × Option β)}
    (h : (items.map (fun i => key i.1)).Nodup) :
    ((presentItems items).map (fun i => key i.1)).Nodup := by
  induction items with
  | nil => exact List.nodup_nil
  | cons i items ih =>
      obtain ⟨name, value⟩ := i
      obtain ⟨hnew, hrest⟩ := List.nodup_cons.mp h
      cases value with
      | none => exact ih hrest
      | some v => exact List.nodup_cons.mpr ⟨key_not_mem_presentItems key hnew, ih hrest⟩

variable {key} in
/-- **What has a value is found as before**, and what has none is not found any
    more: with different keys there is no second item that could be. -/
theorem entry_presentItems {items : List (ν × Option β)}
    (h : (items.map (fun i => key i.1)).Nodup) :
    (entry key (presentItems items) name).map Prod.snd
      = ((entry key items name).map Prod.snd).join := by
  induction items with
  | nil => rfl
  | cons i items ih =>
      obtain ⟨other, value⟩ := i
      obtain ⟨hnew, hrest⟩ := List.nodup_cons.mp h
      by_cases hkey : key other = key name
      · have hfirst : entry key ((other, value) :: items) name = some (other, value) :=
          List.find?_cons_of_pos (decide_eq_true hkey)
        rw [hfirst]
        cases value with
        | none =>
            have hgone : key name ∉ (presentItems items).map (fun i => key i.1) :=
              hkey ▸ key_not_mem_presentItems key hnew
            show (entry key (presentItems items) name).map Prod.snd = _
            rw [(entry_eq_none_iff key _ name).mpr hgone]
            rfl
        | some v =>
            have hfound : entry key ((other, v) :: presentItems items) name = some (other, v) :=
              List.find?_cons_of_pos (decide_eq_true hkey)
            exact congrArg (Option.map Prod.snd) hfound
      · have hlater : entry key ((other, value) :: items) name = entry key items name :=
          List.find?_cons_of_neg (by simpa using hkey)
        rw [hlater, ← ih hrest]
        cases value with
        | none => rfl
        | some v =>
            exact congrArg (Option.map Prod.snd) (List.find?_cons_of_neg (by simpa using hkey))

end Items

/-! ## Dictionaries -/

/-- A dictionary: its items in the order in which their names were first set,
    with different keys. The key of a name may be coarser than the name, as
    where the case of names is ignored; a name then keeps the spelling it was
    last set with. -/
structure Dict (key : ν → κ) (β : Type) where
  items : List (ν × β)
  distinct : (items.map (fun i => key i.1)).Nodup

namespace Dict

variable {key : ν → κ} (d : Dict key β) (name other : ν) (value : β)

/-- `{}`. -/
def empty : Dict key β := ⟨[], List.nodup_nil⟩

/-- `d.get(name)`. -/
def get? : Option β := (entry key d.items name).map Prod.snd

/-- `d[name] = value`. -/
def set : Dict key β :=
  ⟨setItem key d.items name value, nodup_setItem key d.items name value d.distinct⟩

/-- The dictionary with other values. -/
def mapValues {γ : Type} (f : β → γ) : Dict key γ :=
  ⟨d.items.map (fun i => (i.1, f i.2)), nodup_mapValues f d.distinct⟩

/-- The dictionary without the names whose value is `None`. -/
def present (d : Dict key (Option β)) : Dict key β :=
  ⟨presentItems d.items, nodup_presentItems d.distinct⟩

/-- A name of the dictionary with other values has the other value. -/
@[simp] theorem get?_mapValues {γ : Type} (f : β → γ) :
    (d.mapValues f).get? name = (d.get? name).map f := by
  show Option.map _ (entry key (d.items.map _) name) = _
  rw [entry, List.find?_map, Option.map_map, get?, Option.map_map]
  rfl

/-- A name is found where its value is no `None`. -/
@[simp] theorem get?_present (d : Dict key (Option β)) :
    d.present.get? name = (d.get? name).join :=
  entry_presentItems name d.distinct

/-- `d.update(items)`. -/
def update (items : List (ν × β)) : Dict key β := items.foldl (fun d i => d.set i.1 i.2) d

/-- What was set is found again. -/
@[simp] theorem get?_set_self : (d.set name value).get? name = some value := by
  show Option.map _ (entry key (setItem key d.items name value) name) = _
  rw [setItem]
  split_ifs with hmem
  · rw [entry_map_replaced key d.items name name value (fun _ _ h => h)]
    cases hentry : entry key d.items name with
    | none => exact absurd hmem ((entry_eq_none_iff key d.items name).mp hentry)
    | some i =>
        show some (replaced key name value i).2 = _
        rw [replaced, if_pos (key_of_entry hentry)]
  · rw [entry_append, (entry_eq_none_iff key d.items name).mpr hmem, Option.none_or]
    have hnew : entry key [(name, value)] name = some (name, value) :=
      List.find?_cons_of_pos (decide_eq_true rfl)
    rw [hnew]
    rfl

variable {name other} in
/-- Setting leaves the other names alone. -/
theorem get?_set_of_ne (h : key other ≠ key name) :
    (d.set other value).get? name = d.get? name := by
  show Option.map _ (entry key (setItem key d.items other value) name) = _
  rw [setItem]
  split_ifs with hmem
  · rw [entry_map_replaced key d.items other name value (fun _ _ h => h), get?]
    cases hentry : entry key d.items name with
    | none => rfl
    | some i =>
        show some (replaced key other value i).2 = _
        rw [replaced, if_neg (by rw [key_of_entry hentry]; exact h.symm)]
        rfl
  · rw [entry_append, get?]
    have hlast : entry key [(other, value)] name = none :=
      List.find?_cons_of_neg (by simpa using h)
    rw [hlast, Option.or_none]

end Dict

/-! ## Names under a coarser key -/

section Coarse

variable (coarse : ν → κ')

/-- The item whose name prevails: the last one with the coarser key. -/
def lastEntry (items : List (ν × β)) (name : ν) : Option (ν × β) :=
  entry coarse items.reverse name

/-- Its value. -/
def last (items : List (ν × β)) (name : ν) : Option β :=
  (lastEntry coarse items name).map Prod.snd

/-- The name is there, and another one prevails, with the same coarser key. -/
def Hidden {key : ν → κ} (d : Dict key β) (name : ν) : Prop :=
  key name ∈ d.items.map (fun i => key i.1)
    ∧ ∃ i ∈ lastEntry coarse d.items name, key i.1 ≠ key name

instance {key : ν → κ} (d : Dict key β) (name : ν) : Decidable (Hidden coarse d name) :=
  inferInstanceAs (Decidable (_ ∧ ∃ i ∈ lastEntry coarse d.items name, _))

/-- With one more item, the last one under a coarser key is that item where its
    key is the same, and the one before otherwise. -/
theorem last_append_singleton (items : List (ν × β)) (name other : ν) (value : β) :
    last coarse (items ++ [(other, value)]) name
      = if coarse other = coarse name then some value else last coarse items name := by
  rw [last, lastEntry, List.reverse_concat]
  split_ifs with h
  · have hfirst : entry coarse ((other, value) :: items.reverse) name = some (other, value) :=
      List.find?_cons_of_pos (decide_eq_true h)
    rw [hfirst]
    rfl
  · have hrest : entry coarse ((other, value) :: items.reverse) name
        = entry coarse items.reverse name := List.find?_cons_of_neg (by simpa using h)
    rw [hrest]
    rfl

/-- **One dictionary is written to another**: a name has the value that
    prevails, or the value it had. -/
theorem get?_update (d : Dict coarse β) (items : List (ν × β)) (name : ν) :
    (d.update items).get? name = (last coarse items name).or (d.get? name) := by
  induction items using List.reverseRecOn with
  | nil => rfl
  | append_singleton items i ih =>
      rw [Dict.update, List.foldl_append, last_append_singleton]
      show ((d.update items).set i.1 i.2).get? name = _
      split_ifs with h
      · have hname : ((d.update items).set i.1 i.2).get? name
            = ((d.update items).set i.1 i.2).get? i.1 := by
          rw [Dict.get?, Dict.get?, entry, entry, h]
        rw [hname, Dict.get?_set_self, Option.some_or]
      · rw [Dict.get?_set_of_ne _ i.2 h, ih]

variable {coarse} {key : ν → κ} (d : Dict key β) {name other : ν} (value : β)

/-- Setting a name does not change which spelling of another one prevails. -/
theorem lastEntry_set_of_ne (hcoarse : ∀ a b, key a = key b → coarse a = coarse b)
    (h : coarse other ≠ coarse name) :
    lastEntry coarse (d.set other value).items name = lastEntry coarse d.items name := by
  show lastEntry coarse (setItem key d.items other value) name = _
  rw [setItem]
  split_ifs
  · rw [lastEntry, ← List.map_reverse,
      entry_map_replaced key d.items.reverse other name value hcoarse, lastEntry]
    cases hentry : entry coarse d.items.reverse name with
    | none => rfl
    | some i =>
        have hkey : key i.1 ≠ key other := by
          intro heq
          exact h ((hcoarse _ _ heq).symm.trans (key_of_entry hentry))
        show some (replaced key other value i) = _
        rw [replaced, if_neg hkey]
  · rw [lastEntry, List.reverse_concat]
    exact List.find?_cons_of_neg (by simpa using h)

/-- Setting leaves what prevails under the other coarse keys alone. -/
theorem last_set_of_ne (hcoarse : ∀ a b, key a = key b → coarse a = coarse b)
    (h : coarse other ≠ coarse name) :
    last coarse (d.set other value).items name = last coarse d.items name := by
  rw [last, lastEntry_set_of_ne d value hcoarse h, last]

/-- A name that is there is replaced in its place, and so is what prevails. -/
theorem lastEntry_set_of_mem (hcoarse : ∀ a b, key a = key b → coarse a = coarse b)
    (hmem : key name ∈ d.items.map (fun i => key i.1)) :
    lastEntry coarse (d.set name value).items name
      = (lastEntry coarse d.items name).map (replaced key name value) := by
  have hitems : (d.set name value).items = d.items.map (replaced key name value) := if_pos hmem
  rw [hitems, lastEntry, ← List.map_reverse]
  exact entry_map_replaced key d.items.reverse name name value hcoarse

/-- A new name stands last, and prevails. -/
theorem lastEntry_set_of_not_mem (hnew : key name ∉ d.items.map (fun i => key i.1)) :
    lastEntry coarse (d.set name value).items name = some (name, value) := by
  have hitems : (d.set name value).items = d.items ++ [(name, value)] := if_neg hnew
  rw [hitems, lastEntry, List.reverse_concat]
  exact List.find?_cons_of_pos (decide_eq_true rfl)

omit [DecidableEq κ] in
/-- What is there prevails in some spelling. -/
theorem exists_lastEntry (hcoarse : ∀ a b, key a = key b → coarse a = coarse b)
    (hmem : key name ∈ d.items.map (fun i => key i.1)) :
    ∃ i, lastEntry coarse d.items name = some i := by
  refine Option.ne_none_iff_exists'.mp (fun hnone => ?_)
  obtain ⟨i, hi, hkey⟩ := List.mem_map.mp hmem
  exact (entry_eq_none_iff coarse d.items.reverse name).mp hnone
    (List.mem_map.mpr ⟨i, List.mem_reverse.mpr hi, hcoarse _ _ hkey⟩)

/-- **A name that is set prevails**, unless another one is behind it. -/
theorem last_set_self (hcoarse : ∀ a b, key a = key b → coarse a = coarse b)
    (h : ¬ Hidden coarse d name) :
    last coarse (d.set name value).items name = some value := by
  rw [last]
  by_cases hmem : key name ∈ d.items.map (fun i => key i.1)
  · obtain ⟨i, hentry⟩ := exists_lastEntry d hcoarse hmem
    have hkey : key i.1 = key name := by
      by_contra hne
      exact h ⟨hmem, i, hentry, hne⟩
    rw [lastEntry_set_of_mem d value hcoarse hmem, hentry]
    show some (replaced key name value i).2 = _
    rw [replaced, if_pos hkey]
  · rw [lastEntry_set_of_not_mem d value hmem]
    rfl

/-- Behind another one it is not seen, whatever it is set to. -/
theorem last_set_of_hidden (hcoarse : ∀ a b, key a = key b → coarse a = coarse b)
    (h : Hidden coarse d name) :
    last coarse (d.set name value).items name = last coarse d.items name := by
  obtain ⟨hmem, i, hentry, hne⟩ := h
  rw [last, last, lastEntry_set_of_mem d value hcoarse hmem,
    show lastEntry coarse d.items name = some i from hentry]
  show some (replaced key name value i).2 = _
  rw [replaced, if_neg hne]
  rfl

/-- Setting hides nothing, and uncovers nothing, under the other coarse keys. -/
theorem hidden_set_of_ne (hcoarse : ∀ a b, key a = key b → coarse a = coarse b)
    (h : coarse other ≠ coarse name) :
    Hidden coarse (d.set other value) name ↔ Hidden coarse d name := by
  have hmem : key name ∈ (d.set other value).items.map (fun i => key i.1)
      ↔ key name ∈ d.items.map (fun i => key i.1) := by
    have hget := Dict.get?_set_of_ne d value (fun heq => h (hcoarse _ _ heq))
    rw [← not_iff_not, ← entry_eq_none_iff, ← entry_eq_none_iff, ← Option.map_eq_none_iff,
      ← Option.map_eq_none_iff (f := Prod.snd) (x := entry key d.items name)]
    exact Eq.congr hget rfl
  rw [Hidden, Hidden, hmem, lastEntry_set_of_ne d value hcoarse h]

/-- Setting a name brings it no further to the front or to the back. -/
theorem hidden_set_iff (hcoarse : ∀ a b, key a = key b → coarse a = coarse b) :
    Hidden coarse (d.set name value) name ↔ Hidden coarse d name := by
  by_cases hmem : key name ∈ d.items.map (fun i => key i.1)
  · obtain ⟨i, hentry⟩ := exists_lastEntry d hcoarse hmem
    have hset : lastEntry coarse (d.set name value).items name
        = some (replaced key name value i) := by
      rw [lastEntry_set_of_mem d value hcoarse hmem, hentry]
      rfl
    have hthere : key name ∈ (d.set name value).items.map (fun i => key i.1) := by
      by_contra hnew
      have hself := Dict.get?_set_self d name value
      rw [Dict.get?, (entry_eq_none_iff key _ name).mpr hnew] at hself
      cases hself
    rw [Hidden, Hidden, hset, hentry, and_iff_right hmem, and_iff_right hthere]
    simp only [Option.mem_def, Option.some.injEq, exists_eq_left', key_replaced]
  · refine iff_of_false ?_ (fun h => hmem h.1)
    rintro ⟨-, i, hentry, hne⟩
    obtain rfl := Option.some.inj ((lastEntry_set_of_not_mem d value hmem).symm.trans hentry)
    exact hne rfl

end Coarse

/-! ## Copies -/

section Copies

variable {key : ν → κ}

/-- Updating with items that are all new puts them behind the others. -/
theorem items_update_of_new (d : Dict key β) (items : List (ν × β))
    (h : ((d.items ++ items).map (fun i => key i.1)).Nodup) :
    (d.update items).items = d.items ++ items := by
  induction items generalizing d with
  | nil => exact (List.append_nil _).symm
  | cons i items ih =>
      have hnew : (d.set i.1 i.2).items = d.items ++ [i] := by
        show setItem key d.items i.1 i.2 = _
        rw [setItem, if_neg]
        intro hmem
        rw [List.map_append] at h
        exact (List.nodup_append.mp h).2.2 _ hmem _ List.mem_cons_self rfl
      show ((d.set i.1 i.2).update items).items = _
      rw [ih _ (by rw [hnew, List.append_assoc]; exact h), hnew, List.append_assoc]
      rfl

/-- **A copy** of a dictionary is the dictionary. -/
theorem update_empty (d : Dict key β) : (Dict.empty : Dict key β).update d.items = d := by
  have hitems : ((Dict.empty : Dict key β).update d.items).items = d.items :=
    items_update_of_new Dict.empty d.items d.distinct
  cases hcopy : (Dict.empty : Dict key β).update d.items with
  | mk items distinct =>
      rw [hcopy] at hitems
      cases d
      cases hitems
      rfl

end Copies

end OrderedDicts
