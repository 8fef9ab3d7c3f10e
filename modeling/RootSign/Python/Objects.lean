import RootSign.Python.Json

namespace RootSign.Python

/-!
# Dicts and lists as objects

A Python value that is a dict or a list is held by reference, and its items can be assigned.

* `Slot`, `Objects` — values as variables hold them, and the containers by their addresses;
* `Holds` — a slot holds a JSON value, in containers at addresses of a kind;
* `Agrees` — two heaps have the same containers at addresses of a kind, and `Holds.agrees`.
-/

/-- What a variable or an item holds: a value without items, or a reference. -/
inductive Slot where
  | leaf (v : Json)
  | ref (address : ℕ)

/-- A container with its items. -/
inductive Container where
  | dict (fields : List (JStr × Slot))
  | list (items : List Slot)

/-- The containers by their addresses; a new one goes to the end. -/
abbrev Objects := List Container

/-- `d[key] = value`, on the fields of a dict. -/
def assign : List (JStr × Slot) → JStr → Slot → List (JStr × Slot)
  | [], key, value => [(key, value)]
  | (k, v) :: rest, key, value =>
    if k = key then (k, value) :: rest else (k, v) :: assign rest key value

/-- `d[key] = value`, on the dict at an address. -/
def Objects.setItem (h : Objects) (address : ℕ) (key : JStr) (value : Slot) : Objects :=
  match h[address]? with
  | some (.dict fields) => h.set address (.dict (assign fields key value))
  | _ => h

/-- `l.append(value)`, on the list at an address. -/
def Objects.append (h : Objects) (address : ℕ) (value : Slot) : Objects :=
  match h[address]? with
  | some (.list items) => h.set address (.list (items ++ [value]))
  | _ => h

mutual

/-- The slot holds the value, in containers at addresses of the given kind. -/
def Holds (P : ℕ → Prop) (h : Objects) : Json → Slot → Prop
  | .arr items, slot =>
    ∃ a slots, slot = .ref a ∧ P a ∧ h[a]? = some (.list slots) ∧ HoldsItems P h items slots
  | .obj fields, slot =>
    (fields.map Prod.fst).Nodup ∧
      ∃ a slots, slot = .ref a ∧ P a ∧ h[a]? = some (.dict slots) ∧ HoldsFields P h fields slots
  | v, slot => slot = .leaf v

/-- The slots hold the values, one each. -/
def HoldsItems (P : ℕ → Prop) (h : Objects) : List Json → List Slot → Prop
  | [], slots => slots = []
  | v :: rest, slots => ∃ s slots', slots = s :: slots' ∧ Holds P h v s ∧ HoldsItems P h rest slots'

/-- The fields hold the values, under the same keys. -/
def HoldsFields (P : ℕ → Prop) (h : Objects) :
    List (JStr × Json) → List (JStr × Slot) → Prop
  | [], slots => slots = []
  | (k, v) :: rest, slots =>
    ∃ s slots', slots = (k, s) :: slots' ∧ Holds P h v s ∧ HoldsFields P h rest slots'

end

/-- The second heap has every container of the first at the addresses of the given kind. -/
def Agrees (P : ℕ → Prop) (h h' : Objects) : Prop := ∀ a c, P a → h[a]? = some c → h'[a]? = some c

section

variable {P Q : ℕ → Prop} {h h' h'' : Objects} {a : ℕ}

/-- A container that is there lies below the length of the heap. -/
theorem lt_of_get {c : Container} (hget : h[a]? = some c) : a < h.length :=
  (List.getElem?_eq_some_iff.mp hget).1

theorem Agrees.refl (P : ℕ → Prop) (h : Objects) : Agrees P h h := fun _ _ _ hc => hc

/-- Two changes that keep the same containers keep them together. -/
theorem Agrees.trans (h₁ : Agrees P h h') (h₂ : Agrees P h' h'') : Agrees P h h'' :=
  fun a c ha hc => h₂ a c ha (h₁ a c ha hc)

/-- What keeps some containers keeps fewer. -/
theorem Agrees.mono (hagrees : Agrees P h h') (himp : ∀ a, Q a → P a) : Agrees Q h h' :=
  fun a c ha hc => hagrees a c (himp a ha) hc

/-- A container at a new address. -/
theorem agrees_concat (P : ℕ → Prop) (h : Objects) (c : Container) : Agrees P h (h ++ [c]) :=
  fun a _ _ hc => by rw [List.getElem?_append_left (lt_of_get hc), hc]

/-- An assignment to a key changes the one dict. -/
theorem agrees_setItem (key : JStr) (value : Slot) :
    Agrees (fun b => b ≠ a) h (h.setItem a key value) := by
  intro b c hb hc
  unfold Objects.setItem
  split
  · rw [List.getElem?_set_ne hb.symm, hc]
  · exact hc

/-- `append` changes the one list. -/
theorem agrees_append (value : Slot) : Agrees (fun b => b ≠ a) h (h.append a value) := by
  intro b c hb hc
  unfold Objects.append
  split
  · rw [List.getElem?_set_ne hb.symm, hc]
  · exact hc

/-- An assignment makes no container. -/
theorem length_setItem (h : Objects) (a : ℕ) (key : JStr) (value : Slot) :
    (h.setItem a key value).length = h.length := by
  unfold Objects.setItem
  split
  · rw [List.length_set]
  · rfl

/-- `append` makes no container. -/
theorem length_append (h : Objects) (a : ℕ) (value : Slot) :
    (h.append a value).length = h.length := by
  unfold Objects.append
  split
  · rw [List.length_set]
  · rfl

/-- A new key goes to the end of a dict. -/
theorem assign_new {fields : List (JStr × Slot)} {key : JStr} {value : Slot}
    (hnew : key ∉ fields.map Prod.fst) : assign fields key value = fields ++ [(key, value)] := by
  induction fields with
  | nil => rfl
  | cons p rest ih =>
    obtain ⟨k, v⟩ := p
    rw [List.map_cons, List.mem_cons, not_or] at hnew
    rw [assign, if_neg fun h => hnew.1 h.symm, ih hnew.2, List.cons_append]

mutual

/-- What a slot holds depends on the containers it is held in. -/
theorem Holds.agrees (hagrees : Agrees P h h') (himp : ∀ a < h.length, P a → Q a) :
    ∀ {v : Json} {s : Slot}, Holds P h v s → Holds Q h' v s
  | .arr items, s, hv => by
    obtain ⟨a, slots, rfl, ha, hget, hitems⟩ := hv
    exact ⟨a, slots, rfl, himp a (lt_of_get hget) ha, hagrees a _ ha hget,
      HoldsItems.agrees hagrees himp hitems⟩
  | .obj fields, s, hv => by
    obtain ⟨hkeys, a, slots, rfl, ha, hget, hfields⟩ := hv
    exact ⟨hkeys, a, slots, rfl, himp a (lt_of_get hget) ha, hagrees a _ ha hget,
      HoldsFields.agrees hagrees himp hfields⟩
  | .null, s, hv => hv
  | .bool _, s, hv => hv
  | .int _, s, hv => hv
  | .float _, s, hv => hv
  | .str _, s, hv => hv

/-- Items are held as long as their containers are kept. -/
theorem HoldsItems.agrees (hagrees : Agrees P h h') (himp : ∀ a < h.length, P a → Q a) :
    ∀ {items : List Json} {slots : List Slot}, HoldsItems P h items slots →
      HoldsItems Q h' items slots
  | [], _, hv => hv
  | v :: rest, _, hv => by
    obtain ⟨s, slots, rfl, hs, hrest⟩ := hv
    exact ⟨s, slots, rfl, Holds.agrees hagrees himp hs, HoldsItems.agrees hagrees himp hrest⟩

/-- Fields are held as long as their containers are kept. -/
theorem HoldsFields.agrees (hagrees : Agrees P h h') (himp : ∀ a < h.length, P a → Q a) :
    ∀ {fields : List (JStr × Json)} {slots : List (JStr × Slot)}, HoldsFields P h fields slots →
      HoldsFields Q h' fields slots
  | [], _, hv => hv
  | (k, v) :: rest, _, hv => by
    obtain ⟨s, slots, rfl, hs, hrest⟩ := hv
    exact ⟨s, slots, rfl, Holds.agrees hagrees himp hs, HoldsFields.agrees hagrees himp hrest⟩

end

/-- One item more at the end. -/
theorem HoldsItems.concat {items : List Json} {slots : List Slot} {v : Json} {s : Slot}
    (hitems : HoldsItems P h items slots) (hs : Holds P h v s) :
    HoldsItems P h (items ++ [v]) (slots ++ [s]) := by
  induction items generalizing slots with
  | nil =>
    obtain rfl : slots = [] := hitems
    exact ⟨s, [], rfl, hs, rfl⟩
  | cons w rest ih =>
    obtain ⟨t, slots', rfl, ht, hrest⟩ := hitems
    exact ⟨t, slots' ++ [s], rfl, ht, ih hrest⟩

/-- One field more at the end. -/
theorem HoldsFields.concat {fields : List (JStr × Json)} {slots : List (JStr × Slot)} {k : JStr}
    {v : Json} {s : Slot} (hfields : HoldsFields P h fields slots) (hs : Holds P h v s) :
    HoldsFields P h (fields ++ [(k, v)]) (slots ++ [(k, s)]) := by
  induction fields generalizing slots with
  | nil =>
    obtain rfl : slots = [] := hfields
    exact ⟨s, [], rfl, hs, rfl⟩
  | cons p rest ih =>
    obtain ⟨k', w⟩ := p
    obtain ⟨t, slots', rfl, ht, hrest⟩ := hfields
    exact ⟨t, slots' ++ [(k, s)], rfl, ht, ih hrest⟩

/-- The dict has the keys of the value. -/
theorem HoldsFields.keys {fields : List (JStr × Json)} {slots : List (JStr × Slot)}
    (hfields : HoldsFields P h fields slots) : slots.map Prod.fst = fields.map Prod.fst := by
  induction fields generalizing slots with
  | nil =>
    obtain rfl : slots = [] := hfields
    rfl
  | cons p rest ih =>
    obtain ⟨k, v⟩ := p
    obtain ⟨s, slots', rfl, -, hrest⟩ := hfields
    rw [List.map_cons, List.map_cons, ih hrest]

end

end RootSign.Python
