import RootSign.Fixtures.SyncReceipt
import RootSign.Python.Objects
import RootSign.Python.Sha256
import RootSign.Sdk.Redaction

namespace RootSign

open RootSign.Python

/-!
# What redaction replaces

The walk of `RedactionConfig.redact` over a payload of any nesting.

* `Step`, `Json.at?` — a place in a payload, and what is there;
* `redactAt` — the walk on objects, which assigns to the dicts and lists it makes itself, and
  `redactAt_spec`: it makes a value as `redact` says and leaves every older container as it was;
* `Redacted` — what a redacted payload has to look like, place by place;
* `redaction_exact` — every redaction looks like that, and redacting it again changes nothing.
-/

/-! ### Places in a payload -/

/-- One step into a container. -/
inductive Step where
  | key (k : JStr)
  | item (i : ℕ)
deriving DecidableEq

/-- What is at a place. -/
def Python.Json.at? : Json → List Step → Option Json
  | v, [] => some v
  | .obj fields, .key k :: rest => (fields.lookup k).bind fun v => at? v rest
  | .arr items, .item i :: rest => items[i]?.bind fun v => at? v rest
  | _, _ => none

/-- The keys on the way to a place; list items keep their list's path. -/
def keysOf (steps : List Step) : List JStr :=
  steps.filterMap fun
    | .key k => some k
    | .item _ => none

/-- Keys joined by dots. -/
def dottedPath : List JStr → JStr
  | [] => ""
  | [k] => k
  | k :: rest => k ++ "." ++ dottedPath rest

/-- A value without items. -/
def Python.Json.IsLeaf : Json → Prop
  | .arr _ => False
  | .obj _ => False
  | _ => True

/-- The path that the walk has for a place below a path. -/
def pathBelow (path : JStr) : List Step → JStr
  | [] => path
  | .key k :: rest => pathBelow (RedactionConfig.fullPath path k) rest
  | .item _ :: rest => pathBelow path rest

/-! ### The walk on objects -/

section

variable (rt : Runtime) (max_digits : ℕ) (cfg : RedactionConfig)

/-- `for k, v in obj.items(): result[k] = …`, with `result` at an address. -/
def redactFieldsAt (redactValue : Objects → JStr → Slot → Slot × Objects) (path : JStr)
    (result : ℕ) : List (JStr × Slot) → Objects → Objects
  | [], h => h
  | (k, v) :: rest, h =>
    let redacted := redactValue h (RedactionConfig.fullPath path k) v
    redactFieldsAt redactValue path result rest (redacted.2.setItem result k redacted.1)

/-- `[… for item in value]`, with the new list at an address. -/
def redactItemsAt (redactValue : Objects → JStr → Slot → Slot × Objects) (path : JStr)
    (result : ℕ) : List Slot → Objects → Objects
  | [], h => h
  | item :: rest, h =>
    let redacted := redactValue h path item
    redactItemsAt redactValue path result rest (redacted.2.append result redacted.1)

/-- `_redact_value`, with the given number of levels left before the limit is passed. -/
def redactValueAt : ℕ → Objects → JStr → Slot → Slot × Objects
  | 0, h, _, _ => (.leaf redactedPlaceholder, h)
  | _ + 1, h, _, .leaf .null => (.leaf .null, h)
  | _ + 1, h, path, .leaf v => (.leaf (cfg.redactLeaf rt max_digits path v), h)
  | n + 1, h, path, .ref a =>
    match h[a]? with
    | some (.dict fields) =>
      -- `result: dict[str, Any] = {}`
      (.ref h.length, redactFieldsAt (redactValueAt n) path h.length fields (h ++ [.dict []]))
    | some (.list items) =>
      (.ref h.length, redactItemsAt (redactValueAt n) path h.length items (h ++ [.list []]))
    | none => (.ref a, h)

/-- `redact`. -/
def redactAt (h : Objects) (payload : Slot) : Slot × Objects :=
  match payload with
  | .leaf v => (.leaf v, h)
  | .ref a =>
    match h[a]? with
    | some (.dict fields) =>
      if cfg.hasRules then
        (.ref h.length,
          redactFieldsAt (redactValueAt rt max_digits cfg maxRedactionDepth) "" h.length fields
            (h ++ [.dict []]))
      else (.ref a, h)
    | _ => (.ref a, h)

end

section

variable {rt : Runtime} {max_digits : ℕ} {cfg : RedactionConfig} {h h' : Objects} {path : JStr}
  {slot : Slot} {v : Json} {n depth : ℕ}

/-- A call of the walk leaves the older containers as they are, and makes a value in new ones. -/
structure Makes (h : Objects) (out : Slot × Objects) (v : Json) : Prop where
  length_le : h.length ≤ out.2.length
  keeps : Agrees (fun a => a < h.length) h out.2
  holds : Holds (fun a => h.length ≤ a) out.2 v out.1

/-- A walk that makes what it should of every value. -/
def WalkMakes (walk : Objects → JStr → Slot → Slot × Objects) (value : JStr → Json → Json) : Prop :=
  ∀ h path slot v, Holds (fun _ => True) h v slot → Makes h (walk h path slot) (value path v)

variable {walk : Objects → JStr → Slot → Slot × Objects} {value : JStr → Json → Json}

/-- The loop over the fields: the dict at `result` holds what was made so far. -/
theorem redactFieldsAt_spec (path : JStr) (hwalk : WalkMakes walk value) {result : ℕ}
    {fields : List (JStr × Json)} {slots : List (JStr × Slot)} {done : List (JStr × Json)}
    {held : List (JStr × Slot)}
    (hfields : HoldsFields (fun a => a ≠ result) h fields slots)
    (hkeys : ((done ++ fields).map Prod.fst).Nodup)
    (hresult : h[result]? = some (.dict held))
    (hdone : HoldsFields (fun a => result < a) h done held) :
    h.length ≤ (redactFieldsAt walk path result slots h).length ∧
      Agrees (fun a => a < h.length ∧ a ≠ result) h (redactFieldsAt walk path result slots h) ∧
      ∃ held', (redactFieldsAt walk path result slots h)[result]? = some (.dict held') ∧
        HoldsFields (fun a => result < a) (redactFieldsAt walk path result slots h)
          (done ++ fields.map fun p => (p.1, value (RedactionConfig.fullPath path p.1) p.2))
          held' := by
  induction fields generalizing h slots done held with
  | nil =>
    obtain rfl : slots = [] := hfields
    refine ⟨le_rfl, .refl _ _, held, hresult, ?_⟩
    rw [List.map_nil, List.append_nil]
    exact hdone
  | cons p rest ih =>
    obtain ⟨k, v⟩ := p
    obtain ⟨s, slots', rfl, hs, hrest⟩ := hfields
    have hmakes := hwalk h (RedactionConfig.fullPath path k) s v
      (hs.agrees (.refl _ _) fun _ _ _ => trivial)
    generalize hout : walk h (RedactionConfig.fullPath path k) s = out at hmakes
    have hlt : result < h.length := lt_of_get hresult
    -- what was there before is there after the call and the assignment
    have hkeeps : Agrees (fun a => a < h.length ∧ a ≠ result) h (out.2.setItem result k out.1) :=
      (hmakes.keeps.mono fun a ha => ha.1).trans ((agrees_setItem k out.1).mono fun a ha => ha.2)
    have hnew : k ∉ held.map Prod.fst := by
      rw [hdone.keys]
      rw [List.map_append, List.map_cons, List.nodup_append] at hkeys
      exact fun hk => hkeys.2.2 k hk k List.mem_cons_self rfl
    have hassigned : (out.2.setItem result k out.1)[result]? =
        some (.dict (held ++ [(k, out.1)])) := by
      have hget := hmakes.keeps result _ hlt hresult
      have hlt' := lt_of_get hget
      unfold Objects.setItem
      rw [hget]
      show (out.2.set result _)[result]? = _
      rw [List.getElem?_set_self hlt', assign_new hnew]
    have hheld : HoldsFields (fun a => result < a) (out.2.setItem result k out.1)
        (done ++ [(k, value (RedactionConfig.fullPath path k) v)]) (held ++ [(k, out.1)]) := by
      refine (hdone.agrees ?_ fun _ _ ha => ha).concat (hmakes.holds.agrees ?_ fun a _ ha => ?_)
      · intro a c ha hc
        exact hkeeps a c ⟨lt_of_get hc, ha.ne'⟩ hc
      · exact (agrees_setItem k out.1).mono fun a ha => (hlt.trans_le ha).ne'
      · exact hlt.trans_le ha
    have hrest' : HoldsFields (fun a => a ≠ result) (out.2.setItem result k out.1) rest slots' :=
      hrest.agrees (fun a c ha hc => hkeeps a c ⟨lt_of_get hc, ha⟩ hc)
        fun _ _ ha => ha
    have hkeys' : ((done ++ [(k, value (RedactionConfig.fullPath path k) v)] ++ rest).map
        Prod.fst).Nodup := by
      simpa using hkeys
    obtain ⟨hlength, hagrees, held', hresult', hheld'⟩ := ih hrest' hkeys' hassigned hheld
    have hwalked : redactFieldsAt walk path result ((k, s) :: slots') h =
        redactFieldsAt walk path result slots' (out.2.setItem result k out.1) := by
      rw [redactFieldsAt, hout]
    rw [hwalked]
    rw [length_setItem] at hlength hagrees
    refine ⟨hmakes.length_le.trans hlength, ?_, held', hresult', ?_⟩
    · exact hkeeps.trans (hagrees.mono fun a ha => ⟨ha.1.trans_le hmakes.length_le, ha.2⟩)
    · simpa using hheld'

/-- The loop over the items: the list at `result` holds what was made so far. -/
theorem redactItemsAt_spec (path : JStr) (hwalk : WalkMakes walk value) {result : ℕ}
    {items : List Json} {slots : List Slot} {done : List Json} {held : List Slot}
    (hitems : HoldsItems (fun a => a ≠ result) h items slots)
    (hresult : h[result]? = some (.list held))
    (hdone : HoldsItems (fun a => result < a) h done held) :
    h.length ≤ (redactItemsAt walk path result slots h).length ∧
      Agrees (fun a => a < h.length ∧ a ≠ result) h (redactItemsAt walk path result slots h) ∧
      ∃ held', (redactItemsAt walk path result slots h)[result]? = some (.list held') ∧
        HoldsItems (fun a => result < a) (redactItemsAt walk path result slots h)
          (done ++ items.map (value path)) held' := by
  -- by induction on the items; the list under `result` is the only container that changes
  induction items generalizing h slots done held with
  | nil =>
    obtain rfl : slots = [] := hitems
    refine ⟨le_rfl, .refl _ _, held, hresult, ?_⟩
    rw [List.map_nil, List.append_nil]
    exact hdone
  | cons v rest ih =>
    -- the recursive walk makes its value of new containers, so `result` and the rest are as before
    obtain ⟨s, slots', rfl, hs, hrest⟩ := hitems
    have hmakes := hwalk h path s v (hs.agrees (.refl _ _) fun _ _ _ => trivial)
    generalize hout : walk h path s = out at hmakes
    have hlt : result < h.length := lt_of_get hresult
    have hkeeps : Agrees (fun a => a < h.length ∧ a ≠ result) h (out.2.append result out.1) :=
      (hmakes.keeps.mono fun a ha => ha.1).trans ((agrees_append out.1).mono fun a ha => ha.2)
    have happended : (out.2.append result out.1)[result]? = some (.list (held ++ [out.1])) := by
      have hget := hmakes.keeps result _ hlt hresult
      have hlt' := lt_of_get hget
      unfold Objects.append
      rw [hget]
      show (out.2.set result _)[result]? = _
      rw [List.getElem?_set_self hlt']
    -- what was made lies above `result`, and so does what this item made
    have hheld : HoldsItems (fun a => result < a) (out.2.append result out.1)
        (done ++ [value path v]) (held ++ [out.1]) := by
      refine (hdone.agrees ?_ fun _ _ ha => ha).concat (hmakes.holds.agrees ?_ fun a _ ha => ?_)
      · intro a c ha hc
        exact hkeeps a c ⟨lt_of_get hc, ha.ne'⟩ hc
      · exact (agrees_append out.1).mono fun a ha => (hlt.trans_le ha).ne'
      · exact hlt.trans_le ha
    have hrest' : HoldsItems (fun a => a ≠ result) (out.2.append result out.1) rest slots' :=
      hrest.agrees (fun a c ha hc => hkeeps a c ⟨lt_of_get hc, ha⟩ hc)
        fun _ _ ha => ha
    obtain ⟨hlength, hagrees, held', hresult', hheld'⟩ := ih hrest' happended hheld
    have hwalked : redactItemsAt walk path result (s :: slots') h =
        redactItemsAt walk path result slots' (out.2.append result out.1) := by
      rw [redactItemsAt, hout]
    rw [hwalked]
    rw [length_append] at hlength hagrees
    refine ⟨hmakes.length_le.trans hlength, ?_, held', hresult', ?_⟩
    · exact hkeeps.trans (hagrees.mono fun a ha => ⟨ha.1.trans_le hmakes.length_le, ha.2⟩)
    · simpa using hheld'

/-- The items of a list, each at its list's path. -/
theorem redactItems_eq_map (items : List Json) :
    cfg.redactItems rt max_digits path items depth =
      items.map fun v => cfg.redactValue rt max_digits path v depth := by
  induction items with
  | nil => rfl
  | cons v rest ih => rw [RedactionConfig.redactItems, ih, List.map_cons]

/-- The fields of a dict, each at its own path. -/
theorem redactFields_eq_map (fields : List (JStr × Json)) :
    cfg.redactFields rt max_digits path fields depth =
      fields.map fun p => (p.1, cfg.redactValue rt max_digits
        (RedactionConfig.fullPath path p.1) p.2 depth) := by
  induction fields with
  | nil => rfl
  | cons p rest ih =>
    obtain ⟨k, v⟩ := p
    rw [RedactionConfig.redactFields, ih, List.map_cons]

/-- A new dict, filled. -/
theorem redactFieldsAt_makes (hwalk : WalkMakes walk value) {fields : List (JStr × Json)}
    {slots : List (JStr × Slot)} (hkeys : (fields.map Prod.fst).Nodup)
    (hfields : HoldsFields (fun _ => True) h fields slots) :
    Makes h (.ref h.length, redactFieldsAt walk path h.length slots (h ++ [.dict []]))
      (.obj (fields.map fun p => (p.1, value (RedactionConfig.fullPath path p.1) p.2))) := by
  have hold : HoldsFields (fun a => a ≠ h.length) (h ++ [.dict []]) fields slots :=
    hfields.agrees (agrees_concat _ _ _) fun _ ha _ => ha.ne
  have hempty : HoldsFields (fun a => h.length < a) (h ++ [.dict []]) [] [] := rfl
  have hfirst : (h ++ [Container.dict []])[h.length]? = some (.dict []) :=
    List.getElem?_concat_length
  have hall : (([] ++ fields).map Prod.fst).Nodup := by rwa [List.nil_append]
  obtain ⟨hlength, hagrees, held, hresult, hheld⟩ :=
    redactFieldsAt_spec path hwalk hold hall hfirst hempty
  rw [List.length_append, List.length_singleton] at hlength hagrees
  refine ⟨Nat.le_of_succ_le hlength, ?_, ?_, h.length, held, rfl, le_rfl, hresult, ?_⟩
  · exact (agrees_concat _ _ _).trans
      (hagrees.mono fun a ha => ⟨Nat.lt_succ_of_lt ha, Nat.ne_of_lt ha⟩)
  · rw [List.map_map]
    exact hkeys
  · exact hheld.agrees (.refl _ _) fun _ _ ha => ha.le

/-- A new list, filled. -/
theorem redactItemsAt_makes (hwalk : WalkMakes walk value) {items : List Json}
    {slots : List Slot} (hitems : HoldsItems (fun _ => True) h items slots) :
    Makes h (.ref h.length, redactItemsAt walk path h.length slots (h ++ [.list []]))
      (.arr (items.map (value path))) := by
  have hold : HoldsItems (fun a => a ≠ h.length) (h ++ [.list []]) items slots :=
    hitems.agrees (agrees_concat _ _ _) fun _ ha _ => ha.ne
  have hempty : HoldsItems (fun a => h.length < a) (h ++ [.list []]) [] [] := rfl
  have hfirst : (h ++ [Container.list []])[h.length]? = some (.list []) :=
    List.getElem?_concat_length
  obtain ⟨hlength, hagrees, held, hresult, hheld⟩ :=
    redactItemsAt_spec path hwalk hold hfirst hempty
  rw [List.length_append, List.length_singleton] at hlength hagrees
  refine ⟨Nat.le_of_succ_le hlength, ?_, h.length, held, rfl, le_rfl, hresult, ?_⟩
  · exact (agrees_concat _ _ _).trans
      (hagrees.mono fun a ha => ⟨Nat.lt_succ_of_lt ha, Nat.ne_of_lt ha⟩)
  · exact hheld.agrees (.refl _ _) fun _ _ ha => ha.le

/-- A value that is put in place as it is. -/
theorem makes_leaf (h : Objects) (hv : v.IsLeaf) : Makes h (.leaf v, h) v := by
  refine ⟨le_rfl, .refl _ _, ?_⟩
  cases v with
  | arr items => exact absurd hv id
  | obj fields => exact absurd hv id
  | _ => rfl

/-- A leaf is replaced by the placeholder or not at all. -/
theorem redactLeaf_cases : cfg.redactLeaf rt max_digits path v = redactedPlaceholder ∨
    cfg.redactLeaf rt max_digits path v = v := by
  unfold RedactionConfig.redactLeaf
  split
  · exact Or.inr rfl
  · split
    · exact Or.inl rfl
    · split_ifs
      · exact Or.inl rfl
      · exact Or.inr rfl

/-- A leaf stays a leaf. -/
theorem redactLeaf_isLeaf (hv : v.IsLeaf) : (cfg.redactLeaf rt max_digits path v).IsLeaf := by
  rcases @redactLeaf_cases rt max_digits cfg path v with heq | heq
  · rw [heq]
    trivial
  · rwa [heq]

/-- **The walk on objects** makes of every value what `redactValue` says, and leaves every older
    container as it was. -/
theorem redactValueAt_makes (n depth : ℕ) (hdepth : n + depth = maxRedactionDepth + 1) :
    WalkMakes (redactValueAt rt max_digits cfg n)
      (fun path v => cfg.redactValue rt max_digits path v depth) := by
  -- by induction on the levels left; `n` is what the recursion of the walk consumes
  induction n generalizing depth with
  | zero =>
    -- past the limit the value is replaced whole, whatever it is
    intro h path slot v _
    have hover : maxRedactionDepth < depth := by omega
    have hvalue : cfg.redactValue rt max_digits path v depth = redactedPlaceholder := by
      cases v <;> simp [RedactionConfig.redactValue, hover]
    show Makes h (.leaf redactedPlaceholder, h) (cfg.redactValue rt max_digits path v depth)
    rw [hvalue]
    exact makes_leaf h trivial
  | succ n ih =>
    intro h path slot v hheld
    have hwithin : ¬ maxRedactionDepth < depth := by omega
    have hnext := ih (depth + 1) (by omega)
    -- containers are rebuilt in new ones; every leaf goes to the rules
    cases v with
    | null =>
      obtain rfl : slot = .leaf .null := hheld
      simp only [RedactionConfig.redactValue, if_neg hwithin]
      exact makes_leaf h trivial
    | arr items =>
      obtain ⟨a, slots, rfl, -, hget, hitems⟩ := hheld
      simp only [redactValueAt, hget, RedactionConfig.redactValue, if_neg hwithin]
      rw [redactItems_eq_map]
      exact redactItemsAt_makes hnext hitems
    | obj fields =>
      obtain ⟨hkeys, a, slots, rfl, -, hget, hfields⟩ := hheld
      simp only [redactValueAt, hget, RedactionConfig.redactValue, if_neg hwithin]
      rw [redactFields_eq_map]
      exact redactFieldsAt_makes hnext hkeys hfields
    | bool b =>
      obtain rfl : slot = .leaf (.bool b) := hheld
      simp only [RedactionConfig.redactValue, if_neg hwithin]
      exact makes_leaf h (redactLeaf_isLeaf trivial)
    | int k =>
      obtain rfl : slot = .leaf (.int k) := hheld
      simp only [RedactionConfig.redactValue, if_neg hwithin]
      exact makes_leaf h (redactLeaf_isLeaf trivial)
    | float x =>
      obtain rfl : slot = .leaf (.float x) := hheld
      simp only [RedactionConfig.redactValue, if_neg hwithin]
      exact makes_leaf h (redactLeaf_isLeaf trivial)
    | str s =>
      obtain rfl : slot = .leaf (.str s) := hheld
      simp only [RedactionConfig.redactValue, if_neg hwithin]
      exact makes_leaf h (redactLeaf_isLeaf trivial)

/-- `redact` makes a new payload and leaves its argument as it was. -/
theorem redactAt_spec {fields : List (JStr × Json)} (hrules : cfg.hasRules = true)
    (hpayload : Holds (fun _ => True) h (.obj fields) slot) :
    Makes h (redactAt rt max_digits cfg h slot) (cfg.redact rt max_digits (.obj fields)) := by
  obtain ⟨hkeys, a, slots, rfl, -, hget, hfields⟩ := hpayload
  simp only [redactAt, hget, hrules, if_true, RedactionConfig.redact]
  rw [redactFields_eq_map]
  exact redactFieldsAt_makes (redactValueAt_makes maxRedactionDepth 1 rfl) hkeys hfields

/-! ### Place by place -/

/-- Beyond the limit every value is replaced. -/
theorem redactValue_beyond (hover : maxRedactionDepth < depth) :
    cfg.redactValue rt max_digits path v depth = redactedPlaceholder := by
  cases v <;> simp [RedactionConfig.redactValue, hover]

/-- A list within the limit is rebuilt item by item, under its own path. -/
theorem redactValue_arr {items : List Json} (hdepth : depth ≤ maxRedactionDepth) :
    cfg.redactValue rt max_digits path (.arr items) depth =
      .arr (items.map fun v => cfg.redactValue rt max_digits path v (depth + 1)) := by
  rw [RedactionConfig.redactValue, if_neg (Nat.not_lt.mpr hdepth), redactItems_eq_map]

/-- A dict within the limit is rebuilt value by value, each under the path of its key. -/
theorem redactValue_obj {fields : List (JStr × Json)} (hdepth : depth ≤ maxRedactionDepth) :
    cfg.redactValue rt max_digits path (.obj fields) depth =
      .obj (fields.map fun p => (p.1, cfg.redactValue rt max_digits
        (RedactionConfig.fullPath path p.1) p.2 (depth + 1))) := by
  rw [RedactionConfig.redactValue, if_neg (Nat.not_lt.mpr hdepth), redactFields_eq_map]

/-- A leaf within the limit, `None` apart. -/
theorem redactValue_leaf (hv : v.IsLeaf) (hnull : v ≠ .null) (hdepth : depth ≤ maxRedactionDepth) :
    cfg.redactValue rt max_digits path v depth = cfg.redactLeaf rt max_digits path v := by
  cases v with
  | null => exact absurd rfl hnull
  | arr items => exact absurd hv id
  | obj fields => exact absurd hv id
  | _ => simp only [RedactionConfig.redactValue, if_neg (Nat.not_lt.mpr hdepth)]

/-- `None` within the limit stays. -/
theorem redactValue_null (hdepth : depth ≤ maxRedactionDepth) :
    cfg.redactValue rt max_digits path .null depth = .null := by
  rw [RedactionConfig.redactValue, if_neg (Nat.not_lt.mpr hdepth)]

/-- A value is a leaf or a container. -/
theorem Python.Json.leaf_or_container (v : Json) :
    v.IsLeaf ∨ (∃ items, v = .arr items) ∨ ∃ fields, v = .obj fields := by
  cases v with
  | arr items => exact Or.inr (Or.inl ⟨items, rfl⟩)
  | obj fields => exact Or.inr (Or.inr ⟨fields, rfl⟩)
  | _ => exact Or.inl trivial

/-- Nothing lies below a leaf. -/
theorem Python.Json.IsLeaf.at?_cons (hv : v.IsLeaf) (step : Step) (rest : List Step) :
    v.at? (step :: rest) = none := by
  cases v with
  | arr items => exact absurd hv id
  | obj fields => exact absurd hv id
  | _ => cases step <;> rfl

/-- What is made of a leaf is a leaf. -/
theorem redactValue_isLeaf (hv : v.IsLeaf) :
    (cfg.redactValue rt max_digits path v depth).IsLeaf := by
  rcases Nat.lt_or_ge maxRedactionDepth depth with hover | hwithin
  · rw [redactValue_beyond hover]
    trivial
  · by_cases hnull : v = .null
    · rw [hnull, redactValue_null hwithin]
      trivial
    · rw [redactValue_leaf hv hnull hwithin]
      exact redactLeaf_isLeaf hv

/-- A mapped dict has the mapped value under each key. -/
theorem lookup_map_fields {fields : List (JStr × Json)} (f : JStr → Json → Json) (k : JStr) :
    (fields.map fun p => (p.1, f p.1 p.2)).lookup k = (fields.lookup k).map (f k) := by
  induction fields with
  | nil => rfl
  | cons p rest ih =>
    obtain ⟨k', v⟩ := p
    rw [List.map_cons, List.lookup_cons, List.lookup_cons]
    by_cases hk : k = k'
    · subst hk
      simp
    · simp [beq_eq_false_iff_ne.mpr hk, ih]

/-- **Place by place.** Down to the limit, what the walk makes has at each place what the walk makes
    of the value there. -/
theorem at?_redactValue {steps : List Step}
    (hdepth : depth + steps.length ≤ maxRedactionDepth + 1) :
    (cfg.redactValue rt max_digits path v depth).at? steps = (v.at? steps).map fun u =>
      cfg.redactValue rt max_digits (pathBelow path steps) u (depth + steps.length) := by
  -- by induction on the steps down, one level of the walk each
  induction steps generalizing v path depth with
  | nil => rw [Json.at?, Json.at?]; rfl
  | cons step rest ih =>
    rw [List.length_cons] at hdepth
    have hwithin : depth ≤ maxRedactionDepth := by omega
    have hrest := fun v path => @ih path v (depth + 1) (by omega)
    have hsame : depth + (rest.length + 1) = depth + 1 + rest.length := by omega
    rw [List.length_cons, hsame]
    rcases v.leaf_or_container with hv | ⟨items, rfl⟩ | ⟨fields, rfl⟩
    · rw [hv.at?_cons, (redactValue_isLeaf hv).at?_cons]
      rfl
    · rw [redactValue_arr hwithin]
      cases step with
      | key k => rfl
      | item i =>
        rw [Json.at?, Json.at?, List.getElem?_map]
        cases items[i]? with
        | none => rfl
        | some v => exact hrest v path
    -- keys are kept as they are, only the values under them are rewritten
    · rw [redactValue_obj hwithin]
      cases step with
      | item i => rfl
      | key k =>
        rw [Json.at?, Json.at?, lookup_map_fields fun k v => cfg.redactValue rt max_digits
          (RedactionConfig.fullPath path k) v (depth + 1)]
        cases fields.lookup k with
        | none => rfl
        | some v => exact hrest v _

/-- Redacting a leaf again changes nothing. -/
theorem redactLeaf_idem :
    cfg.redactLeaf rt max_digits path (cfg.redactLeaf rt max_digits path v) =
      cfg.redactLeaf rt max_digits path v := by
  have hplaceholder : cfg.redactLeaf rt max_digits path redactedPlaceholder =
      redactedPlaceholder := by
    unfold RedactionConfig.redactLeaf
    split
    · rfl
    · split
      · rfl
      · rw [ite_self]
  rcases @redactLeaf_cases rt max_digits cfg path v with heq | heq
  · rw [heq, hplaceholder]
  · rw [heq, heq]

/-- A leaf within the limit, redacted again. -/
theorem redactValue_idem_leaf (hwithin : depth ≤ maxRedactionDepth) (hv : v.IsLeaf) :
    cfg.redactValue rt max_digits path (cfg.redactValue rt max_digits path v depth) depth =
      cfg.redactValue rt max_digits path v depth := by
  by_cases hnull : v = .null
  · rw [hnull, redactValue_null hwithin, redactValue_null hwithin]
  · rw [redactValue_leaf hv hnull hwithin]
    by_cases hagain : cfg.redactLeaf rt max_digits path v = .null
    · rw [hagain, redactValue_null hwithin]
    · rw [redactValue_leaf (redactLeaf_isLeaf hv) hagain hwithin, redactLeaf_idem]

mutual

/-- Redacting a value again, where it was, changes nothing. -/
theorem redactValue_idem : ∀ (path : JStr) (v : Json) (depth : ℕ),
    cfg.redactValue rt max_digits path (cfg.redactValue rt max_digits path v depth) depth =
      cfg.redactValue rt max_digits path v depth := by
  intro path v depth
  rcases Nat.lt_or_ge maxRedactionDepth depth with hover | hwithin
  · rw [redactValue_beyond hover, redactValue_beyond hover]
  · match v with
    | .arr items =>
      simp only [RedactionConfig.redactValue, if_neg (Nat.not_lt.mpr hwithin)]
      rw [redactItems_idem path items (depth + 1)]
    | .obj fields =>
      simp only [RedactionConfig.redactValue, if_neg (Nat.not_lt.mpr hwithin)]
      rw [redactFields_idem path fields (depth + 1)]
    | .null => rw [redactValue_null hwithin, redactValue_null hwithin]
    | .bool b => exact redactValue_idem_leaf hwithin trivial
    | .int n => exact redactValue_idem_leaf hwithin trivial
    | .float x => exact redactValue_idem_leaf hwithin trivial
    | .str s => exact redactValue_idem_leaf hwithin trivial

/-- The items of a list, redacted again. -/
theorem redactItems_idem : ∀ (path : JStr) (items : List Json) (depth : ℕ),
    cfg.redactItems rt max_digits path (cfg.redactItems rt max_digits path items depth) depth =
      cfg.redactItems rt max_digits path items depth
  | _, [], _ => rfl
  | path, v :: rest, depth => by
    simp only [RedactionConfig.redactItems]
    rw [redactValue_idem path v depth, redactItems_idem path rest depth]

/-- The values of a dict, redacted again. -/
theorem redactFields_idem : ∀ (path : JStr) (fields : List (JStr × Json)) (depth : ℕ),
    cfg.redactFields rt max_digits path (cfg.redactFields rt max_digits path fields depth) depth =
      cfg.redactFields rt max_digits path fields depth
  | _, [], _ => rfl
  | path, (k, v) :: rest, depth => by
    simp only [RedactionConfig.redactFields]
    rw [redactValue_idem _ v depth, redactFields_idem path rest depth]

end

/-- Redacting a payload again changes nothing. -/
theorem redact_idem (payload : Json) :
    cfg.redact rt max_digits (cfg.redact rt max_digits payload) =
      cfg.redact rt max_digits payload := by
  cases payload with
  | obj fields =>
    by_cases hrules : cfg.hasRules = true
    · simp only [RedactionConfig.redact, hrules, if_true]
      rw [redactFields_idem]
    · have hsame : cfg.redact rt max_digits (.obj fields) = .obj fields := if_neg hrules
      rw [hsame, hsame]
  | _ => rfl

/-- A payload with rules is walked from above the limit. -/
theorem redact_eq (hrules : cfg.hasRules = true) (fields : List (JStr × Json)) :
    cfg.redact rt max_digits (.obj fields) = cfg.redactValue rt max_digits "" (.obj fields) 0 := by
  rw [RedactionConfig.redact, if_pos hrules, redactValue_obj (Nat.zero_le _), redactFields_eq_map]

/-! ### The path of a place -/

/-- A key goes to the end of a path that is there. -/
theorem dottedPath_concat {keys : List JStr} (hne : keys ≠ []) (k : JStr) :
    dottedPath (keys ++ [k]) = dottedPath keys ++ "." ++ k := by
  induction keys with
  | nil => exact absurd rfl hne
  | cons k₀ rest ih =>
    cases rest with
    | nil => rfl
    | cons k₁ rest =>
      show k₀ ++ "." ++ dottedPath (k₁ :: rest ++ [k]) =
        k₀ ++ "." ++ dottedPath (k₁ :: rest) ++ "." ++ k
      rw [ih (by simp)]
      exact JStr.ext (by simp [List.append_assoc])

/-- A path that begins with a key that is not empty is no empty string. -/
theorem dottedPath_ne_nil {k : JStr} (hk : k.units ≠ []) (rest : List JStr) :
    (dottedPath (k :: rest)).units ≠ [] := by
  cases rest with
  | nil => exact hk
  | cons k₁ rest => simp [dottedPath, hk]

/-- Below a path that is no empty string, keys are joined to it by dots. -/
theorem pathBelow_dotted {keys : List JStr} {k₀ : JStr} (hk : k₀.units ≠ []) (steps : List Step) :
    pathBelow (dottedPath (k₀ :: keys)) steps = dottedPath (k₀ :: keys ++ keysOf steps) := by
  induction steps generalizing keys with
  | nil => rw [pathBelow, keysOf, List.filterMap_nil, List.append_nil]
  | cons step rest ih =>
    cases step with
    | item i => exact ih
    | key k =>
      have hfull : RedactionConfig.fullPath (dottedPath (k₀ :: keys)) k =
          dottedPath (k₀ :: (keys ++ [k])) := by
        have hsome : (dottedPath (k₀ :: keys)).units.isEmpty = false :=
          List.isEmpty_eq_false_iff.mpr (dottedPath_ne_nil hk keys)
        rw [RedactionConfig.fullPath, hsome, if_neg Bool.false_ne_true]
        exact (dottedPath_concat (List.cons_ne_nil k₀ keys) k).symm
      rw [pathBelow, hfull, ih]
      show dottedPath (k₀ :: (keys ++ [k]) ++ keysOf rest) =
        dottedPath (k₀ :: keys ++ k :: keysOf rest)
      rw [List.cons_append, List.append_assoc, List.singleton_append, List.cons_append]

/-- The path of a place whose first key is not empty. -/
theorem pathBelow_empty {k : JStr} (hk : k.units ≠ []) (rest : List Step) :
    pathBelow "" (.key k :: rest) = dottedPath (keysOf (.key k :: rest)) := by
  have hfull : RedactionConfig.fullPath "" k = dottedPath [k] := rfl
  rw [pathBelow, hfull, pathBelow_dotted hk]
  rfl

/-- The last component of a path is that of its last key. -/
theorem leafOf_concat (path k : JStr) :
    RedactionConfig.leafOf (path ++ "." ++ k) = RedactionConfig.leafOf k := by
  have hdot : (JStr.ofString ".").units = [dot] := rfl
  simp only [RedactionConfig.leafOf, JStr.units_append, hdot, List.reverse_append,
    List.reverse_singleton, JStr.mk.injEq, List.reverse_inj]
  -- the walk back over the key ends at the dot before it at the latest
  rw [← List.append_assoc, List.append_assoc, List.takeWhile_append]
  split_ifs with hall
  · rw [List.singleton_append, List.takeWhile_cons_of_neg (by simp), List.append_nil,
      (List.takeWhile_sublist _).eq_of_length hall]
  · rfl

/-- The last component of a path is that of its last key. -/
theorem leafOf_fullPath (path k : JStr) :
    RedactionConfig.leafOf (RedactionConfig.fullPath path k) = RedactionConfig.leafOf k := by
  unfold RedactionConfig.fullPath
  split_ifs
  · rfl
  · exact leafOf_concat path k

/-- An empty key is lost from the walk's path, but never the last component. -/
theorem leafOf_pathBelow (keys : List JStr) (path : JStr) (steps : List Step)
    (hleaf : RedactionConfig.leafOf path = RedactionConfig.leafOf (dottedPath keys)) :
    RedactionConfig.leafOf (pathBelow path steps) =
      RedactionConfig.leafOf (dottedPath (keys ++ keysOf steps)) := by
  induction steps generalizing keys path with
  | nil => rwa [pathBelow, keysOf, List.filterMap_nil, List.append_nil]
  | cons step rest ih =>
    cases step with
    | item i => exact ih keys path hleaf
    | key k =>
      have hkey : RedactionConfig.leafOf (RedactionConfig.fullPath path k) =
          RedactionConfig.leafOf (dottedPath (keys ++ [k])) := by
        rw [leafOf_fullPath]
        by_cases hne : keys = []
        · rw [hne]
          rfl
        · rw [dottedPath_concat hne, leafOf_concat]
      have hrest := ih (keys ++ [k]) _ hkey
      rwa [List.append_assoc, List.singleton_append] at hrest

/-! ### The rule of a path -/

/-- Whether a key names a path: in path mode every key does, else one with a dot. -/
def isPathKey (match_mode : MatchMode) (key : JStr) : Bool :=
  match_mode == .path || key.units.contains dot

/-- The path rule for a path, if there is one. -/
def pathRule (rules : List RedactionRule) (match_mode : MatchMode) (path : JStr) :
    Option (JStr → Bool) :=
  if isPathKey match_mode path then rules.lookup path else none

/-- The rule that applies to a path: a path rule for it if there is one, else a leaf rule for its
    last component. -/
def applicableRule (rules : List RedactionRule) (match_mode : MatchMode) (path : JStr) :
    Option (JStr → Bool) :=
  if isPathKey match_mode path && (rules.lookup path).isSome then rules.lookup path
  else if isPathKey match_mode (RedactionConfig.leafOf path) then none
  else rules.lookup (RedactionConfig.leafOf path)

/-- The rule depends on the path rule and the last component. -/
theorem applicableRule_congr {rules : List RedactionRule} {match_mode : MatchMode} {p q : JStr}
    (hpath : pathRule rules match_mode p = pathRule rules match_mode q)
    (hleaf : RedactionConfig.leafOf p = RedactionConfig.leafOf q) :
    applicableRule rules match_mode p = applicableRule rules match_mode q := by
  have hrule : ∀ path, applicableRule rules match_mode path =
      (pathRule rules match_mode path).or
        (if isPathKey match_mode (RedactionConfig.leafOf path) then none
          else rules.lookup (RedactionConfig.leafOf path)) := by
    intro path
    unfold applicableRule pathRule
    cases isPathKey match_mode path <;> cases rules.lookup path <;> simp
  rw [hrule, hrule, hpath, hleaf]

/-- Filtering by the key keeps the entries of the keys that pass. -/
theorem lookup_filter_key {α : Type} (keep : JStr → Bool) (entries : List (JStr × α)) (k : JStr) :
    (entries.filter fun e => keep e.1).lookup k = if keep k then entries.lookup k else none := by
  induction entries with
  | nil => exact (ite_self _).symm
  | cons e rest ih =>
    obtain ⟨k', a⟩ := e
    rw [List.filter_cons, List.lookup_cons]
    by_cases hk : k = k'
    · subst hk
      cases hkeep : keep k with
      | true => simp
      | false => simpa [hkeep] using ih
    · have hne : (k == k') = false := beq_eq_false_iff_ne.mpr hk
      cases hkeep : keep k' with
      | true => simpa [hkeep, List.lookup_cons, hne] using ih
      | false => simpa [hkeep, hne] using ih

/-- The rules of a configuration are looked up as the text says: path rules first. -/
theorem matchedRule_new (rules : List RedactionRule) (match_mode : MatchMode) (path : JStr) :
    (RedactionConfig.new rules match_mode).matchedRule path =
      applicableRule rules match_mode path := by
  have hpath := lookup_filter_key (isPathKey match_mode) rules path
  have hleaf := lookup_filter_key (fun k => !isPathKey match_mode k) rules
    (RedactionConfig.leafOf path)
  rw [RedactionConfig.matchedRule, applicableRule]
  show ((rules.filter fun e => isPathKey match_mode e.1).lookup path).or
    ((rules.filter fun e => !isPathKey match_mode e.1).lookup (RedactionConfig.leafOf path)) = _
  rw [hpath, hleaf]
  by_cases hkey : isPathKey match_mode path = true
  · by_cases hname : isPathKey match_mode (RedactionConfig.leafOf path) = true
    · cases rules.lookup path <;> simp [hkey, hname]
    · cases rules.lookup path <;> simp [hkey, hname]
  · by_cases hname : isPathKey match_mode (RedactionConfig.leafOf path) = true
    · simp [hkey, hname]
    · simp [hkey, hname]

/-- A rule is a leaf rule or a path rule. -/
theorem hasRules_new {rules : List RedactionRule} (hrules : rules ≠ []) (match_mode : MatchMode) :
    (RedactionConfig.new rules match_mode).hasRules = true := by
  obtain ⟨r, rest, rfl⟩ := List.exists_cons_of_ne_nil hrules
  rw [RedactionConfig.hasRules, RedactionConfig.new, List.filter_cons, List.filter_cons]
  cases (match_mode == .path || r.1.units.contains dot) <;> simp

end

/-! ### Redacted payloads -/

/-- The rule finds a match in the value's text, if the value has one. -/
def Hits (rt : Runtime) (max_digits : ℕ) (search : JStr → Bool) (v : Json) : Prop :=
  ∀ text, RedactionConfig.candidate rt max_digits v = some text → search text = true

/-- The value has a text, and the rule finds a match in it. -/
def HitsText (rt : Runtime) (max_digits : ℕ) (search : JStr → Bool) (v : Json) : Prop :=
  ∃ text, RedactionConfig.candidate rt max_digits v = some text ∧ search text = true

/-- The walk looks the path rule of a place up as for the place's dotted path.  Only below an empty
    key of the payload may it not: the walk's path has no such key. -/
def PathRuleFound (rules : List RedactionRule) (match_mode : MatchMode)
    (steps : List Step) : Prop :=
  pathRule rules match_mode (pathBelow "" steps) =
    pathRule rules match_mode (dottedPath (keysOf steps))

/-- What a redacted payload has at each place; `Ruled` are the places whose dotted path the rules
    are looked up for, and `hits` says when a rule applies to a value. -/
structure Redacted (Ruled : List Step → Prop) (hits : (JStr → Bool) → Json → Prop)
    (rules : List RedactionRule) (match_mode : MatchMode) (payload redacted : Json) : Prop where
  hit : ∀ steps v search, payload.at? steps = some v → v.IsLeaf → v ≠ .null →
    steps.length ≤ maxRedactionDepth → Ruled steps →
    applicableRule rules match_mode (dottedPath (keysOf steps)) = some search → hits search v →
    redacted.at? steps = some redactedPlaceholder
  beyond : ∀ steps v, payload.at? steps = some v → steps.length = maxRedactionDepth + 1 →
    redacted.at? steps = some redactedPlaceholder
  kept : ∀ steps v, payload.at? steps = some v → v.IsLeaf → steps.length ≤ maxRedactionDepth →
    Ruled steps → (∀ search, applicableRule rules match_mode (dottedPath (keysOf steps)) =
      some search → ¬ hits search v) → redacted.at? steps = some v
  null : ∀ steps, payload.at? steps = some .null → steps.length ≤ maxRedactionDepth →
    redacted.at? steps = some .null
  leaf : ∀ steps v, payload.at? steps = some v → v.IsLeaf → steps.length ≤ maxRedactionDepth →
    redacted.at? steps = some v ∨ redacted.at? steps = some redactedPlaceholder
  dict : ∀ steps fields, payload.at? steps = some (.obj fields) →
    steps.length ≤ maxRedactionDepth → ∃ fields', redacted.at? steps = some (.obj fields') ∧
      fields'.map Prod.fst = fields.map Prod.fst
  list : ∀ steps items, payload.at? steps = some (.arr items) →
    steps.length ≤ maxRedactionDepth → ∃ items', redacted.at? steps = some (.arr items') ∧
      items'.length = items.length

section

variable {rt : Runtime} {max_digits : ℕ} {rules : List RedactionRule} {match_mode : MatchMode}
  {fields : List (JStr × Json)} {steps : List Step} {v : Json}

/-- What is at a place of the redacted payload. -/
theorem at?_redact (hrules : rules ≠ []) (hv : Json.at? (.obj fields) steps = some v)
    (hlength : steps.length ≤ maxRedactionDepth + 1) :
    ((RedactionConfig.new rules match_mode).redact rt max_digits (.obj fields)).at? steps =
      some ((RedactionConfig.new rules match_mode).redactValue rt max_digits (pathBelow "" steps) v
        steps.length) := by
  rw [redact_eq (hasRules_new hrules match_mode), at?_redactValue (by omega), hv, Nat.zero_add]
  rfl

/-- The rule of a place is that of its dotted path. -/
theorem applicableRule_pathBelow (hfound : PathRuleFound rules match_mode steps) :
    applicableRule rules match_mode (pathBelow "" steps) =
      applicableRule rules match_mode (dottedPath (keysOf steps)) :=
  applicableRule_congr hfound (leafOf_pathBelow [] "" steps rfl)

/-- Under a first key that is not empty the rule is found. -/
theorem pathRuleFound_of_named (hv : Json.at? (.obj fields) steps = some v) (hleaf : v.IsLeaf)
    (hnamed : ∀ k ∈ (keysOf steps).head?, k.units ≠ []) :
    PathRuleFound rules match_mode steps := by
  cases steps with
  | nil =>
    obtain rfl := Option.some.inj hv
    exact absurd hleaf id
  | cons step rest =>
    cases step with
    | item i => exact absurd hv (by simp [Json.at?])
    | key k => rw [PathRuleFound, pathBelow_empty (hnamed k rfl) rest]

/-- **Completeness and the frame** of a redaction, proved together. -/
theorem redacted_redact (rt : Runtime) (max_digits : ℕ) (hrules : rules ≠ [])
    (match_mode : MatchMode) (fields : List (JStr × Json)) :
    Redacted (PathRuleFound rules match_mode) (Hits rt max_digits) rules match_mode (.obj fields)
      ((RedactionConfig.new rules match_mode).redact rt max_digits (.obj fields)) := by
  -- place by place: each clause is what the walk makes of the value there
  constructor
  case hit =>
    intro steps v search hv hleaf hnull hlength hfound hrule hhits
    rw [at?_redact hrules hv (by omega), redactValue_leaf hleaf hnull hlength,
      RedactionConfig.redactLeaf, matchedRule_new, applicableRule_pathBelow hfound, hrule]
    -- no text at all counts as a match, since the walk fails closed
    dsimp only
    cases htext : RedactionConfig.candidate rt max_digits v with
    | none => rfl
    | some text => simp only [hhits text htext, if_true]
  case beyond =>
    intro steps v hv hlength
    rw [at?_redact hrules hv hlength.le, redactValue_beyond (by omega)]
  case kept =>
    intro steps v hv hleaf hlength hfound hmiss
    rw [at?_redact hrules hv (by omega)]
    by_cases hnull : v = .null
    · rw [hnull, redactValue_null hlength]
    · rw [redactValue_leaf hleaf hnull hlength, RedactionConfig.redactLeaf, matchedRule_new,
        applicableRule_pathBelow hfound]
      cases hrule : applicableRule rules match_mode (dottedPath (keysOf steps)) with
      | none => rfl
      | some search =>
        have hnot := hmiss search hrule
        unfold Hits at hnot
        push Not at hnot
        obtain ⟨text, htext, hsearch⟩ := hnot
        simp only [htext, if_neg hsearch]
  case null =>
    intro steps hv hlength
    rw [at?_redact hrules hv (by omega), redactValue_null hlength]
  case leaf =>
    intro steps v hv hleaf hlength
    rw [at?_redact hrules hv (by omega)]
    by_cases hnull : v = .null
    · rw [hnull, redactValue_null hlength]
      exact Or.inl rfl
    · rw [redactValue_leaf hleaf hnull hlength]
      rcases redactLeaf_cases with heq | heq
      · rw [heq]
        exact Or.inr rfl
      · rw [heq]
        exact Or.inl rfl
  case dict =>
    intro steps fields' hv hlength
    refine ⟨_,
      (at?_redact hrules hv (by omega)).trans (congrArg some (redactValue_obj hlength)), ?_⟩
    rw [List.map_map]
    rfl
  case list =>
    intro steps items hv hlength
    refine ⟨_,
      (at?_redact hrules hv (by omega)).trans (congrArg some (redactValue_arr hlength)), ?_⟩
    exact List.length_map _

/-- A call of `redact` on a payload object: the result is redacted place by place, every container
    that was there is as it was, and redacting the result makes the same value again. -/
def RedactsExactly (rt : Runtime) (max_digits : ℕ) (rules : List RedactionRule)
    (match_mode : MatchMode) (h : Objects) (payload : Slot) (fields : List (JStr × Json)) : Prop :=
  let cfg := RedactionConfig.new rules match_mode
  let out := redactAt rt max_digits cfg h payload
  let again := redactAt rt max_digits cfg out.2 out.1
  ∃ redacted, Holds (fun _ => True) out.2 redacted out.1 ∧
    Redacted (PathRuleFound rules match_mode) (Hits rt max_digits) rules match_mode
      (.obj fields) redacted ∧
    (∀ a < h.length, out.2[a]? = h[a]?) ∧
    Holds (fun _ => True) again.2 redacted again.1

/-- **Redaction is complete, minimal and idempotent**, on every payload object and with every set of
    rules that is not empty. -/
theorem redaction_exact (rt : Runtime) (max_digits : ℕ) (hrules : rules ≠ [])
    (match_mode : MatchMode) (h : Objects) (payload : Slot) (fields : List (JStr × Json))
    (hpayload : Holds (fun _ => True) h (.obj fields) payload) :
    RedactsExactly rt max_digits rules match_mode h payload fields := by
  have hcfg := hasRules_new hrules match_mode
  have hmakes := @redactAt_spec rt max_digits _ h payload fields hcfg hpayload
  have hheld := hmakes.holds.agrees (.refl _ _) (Q := fun _ => True) fun _ _ _ => trivial
  refine ⟨_, hheld, redacted_redact rt max_digits hrules _ _, fun a ha => ?_, ?_⟩
  · rw [List.getElem?_eq_getElem ha]
    exact hmakes.keeps a _ ha (List.getElem?_eq_getElem ha)
  · -- the result is a dict again, and redacting its value changes nothing
    have hshape := (@redact_eq rt max_digits _ hcfg fields).trans
      (redactValue_obj (Nat.zero_le _))
    rw [hshape] at hheld
    have hagain := @redactAt_spec rt max_digits _ _ _ _ hcfg hheld
    rw [← hshape, redact_idem] at hagain
    exact hagain.holds.agrees (.refl _ _) fun _ _ _ => trivial

/-- One field with an address. -/
def emailPayload : Objects := [.dict [("email", .leaf (.str "a@example.org"))]]

/-- A leaf rule for it that matches everything. -/
def emailRules : List RedactionRule := [("email", fun _ => true)]

/-- A leaf rule is found below an empty key too. -/
example : PathRuleFound emailRules .leaf [.key "", .key "email"] := rfl

theorem redaction_exact_email : RedactsExactly exampleRuntime 4300 emailRules .leaf emailPayload
    (.ref 0) [("email", .str "a@example.org")] := by
  apply redaction_exact exampleRuntime 4300 (List.cons_ne_nil _ _)
  exact ⟨List.nodup_singleton _, 0, _, rfl, trivial, rfl, _, [], rfl, rfl, rfl⟩

/-- A field with the least integer of more digits than the given number. -/
def longNumber (digits : ℕ) : List (JStr × Json) := [("account", .int (10 ^ digits))]

/-- A rule for it that matches nothing. -/
def accountRules : List RedactionRule := [("account", fun _ => false)]

/-- A power of ten has one digit more than its exponent. -/
theorem tooManyDigits_pow {digits : ℕ} (hpos : 0 < digits) :
    tooManyDigits digits (10 ^ digits) = true := by
  have hlong : ¬ (Nat.toDigits 10 (10 ^ digits)).length ≤ digits := by
    rw [Nat.length_toDigits_le_iff (by decide) hpos]
    exact lt_irrefl _
  rw [tooManyDigits, Int.natAbs_pow, Bool.and_eq_true, decide_eq_true_eq, bne_iff_ne]
  exact ⟨hpos.ne', Nat.lt_of_not_le hlong⟩

/-- An integer that `str` refuses is replaced although no rule finds a match: the walk fails
    closed. -/
theorem not_redacted_pow {digits : ℕ} (hpos : 0 < digits) :
    ¬ Redacted (fun _ => True) (HitsText exampleRuntime digits) accountRules .leaf
      (.obj (longNumber digits))
      ((RedactionConfig.new accountRules .leaf).redact exampleRuntime digits
        (.obj (longNumber digits))) := by
  intro h
  have hvalue : Json.at? (.obj (longNumber digits)) [.key "account"] =
      some (.int (10 ^ digits)) := rfl
  have hrule : applicableRule accountRules .leaf "account" = some fun _ => false := rfl
  have hkept := h.kept _ _ hvalue trivial (by decide) trivial (fun search hsearch hhits => ?_)
  · have hredacted := @at?_redact exampleRuntime digits accountRules .leaf _ _ _
      (List.cons_ne_nil _ _) hvalue (by decide)
    have hleaf : (RedactionConfig.new accountRules .leaf).redactValue exampleRuntime digits
        "account" (.int (10 ^ digits)) 1 = redactedPlaceholder := by
      have hwithin : 1 ≤ maxRedactionDepth := by decide
      rw [redactValue_leaf (v := .int _) trivial (by simp) hwithin, RedactionConfig.redactLeaf,
        matchedRule_new, hrule]
      simp only [RedactionConfig.candidate, tooManyDigits_pow hpos, if_true]
    rw [hkept] at hredacted
    exact absurd ((Option.some.inj hredacted).trans hleaf) (by simp [redactedPlaceholder])
  · obtain ⟨text, -, hmatch⟩ := hhits
    obtain rfl := Option.some.inj (hrule.symm.trans hsearch)
    exact absurd hmatch Bool.false_ne_true

/-- An integer of 4301 digits, under the limit the interpreter has by default. -/
theorem not_redacted_longNumber :
    ¬ Redacted (fun _ => True) (HitsText exampleRuntime 4300) accountRules .leaf
      (.obj (longNumber 4300))
      ((RedactionConfig.new accountRules .leaf).redact exampleRuntime 4300
        (.obj (longNumber 4300))) :=
  not_redacted_pow (Nat.succ_pos _)

end

end RootSign
