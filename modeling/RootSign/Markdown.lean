import RootSign.Lib.TextLines
import RootSign.ReportTexts
import RootSign.Sdk.JsonlBytes

namespace RootSign

open RootSign.Python RootSign.Lib

/-!
# Reading Markdown

What a reader of Markdown sees in a text: its lines, which of them are headings, the cells of a row,
and where HTML begins.

* `markdownLines` — lines end at a line feed, a carriage return or the two together;
* `readsHeading` — a line is a heading, be it behind the marks of quotes and list items;
* `cells` — the cells of a row, parted at the pipes with no backslash before them;
* `TagFree` — outside code, no `<` begins a tag;
* `tagFree_append_of_quiet`, `tagFree_quiet_append` — text that says nothing in Markdown can stand
  around a text.
-/

/-! ### Units -/

def lineFeed : CodeUnit := ⟨0x0A, by decide⟩

def carriageReturn : CodeUnit := ⟨0x0D, by decide⟩

def space : CodeUnit := ⟨0x20, by decide⟩

def tab : CodeUnit := ⟨0x09, by decide⟩

def numberSign : CodeUnit := ⟨0x23, by decide⟩

def colon : CodeUnit := ⟨0x3A, by decide⟩

def lessThan : CodeUnit := ⟨0x3C, by decide⟩

def greaterThan : CodeUnit := ⟨0x3E, by decide⟩

def backslash : CodeUnit := ⟨0x5C, by decide⟩

def tick : CodeUnit := ⟨0x60, by decide⟩

def pipe : CodeUnit := ⟨0x7C, by decide⟩

/-- A space or a tab. -/
def isBlank (u : CodeUnit) : Bool := decide (u = space) || decide (u = tab)

/-- `0` to `9`. -/
def isDigitUnit (u : CodeUnit) : Bool := decide (0x30 ≤ u.val) && decide (u.val ≤ 0x39)

/-- `*`, `+` or `-`. -/
def isBullet (u : CodeUnit) : Bool :=
  decide (u.val = 0x2A) || decide (u.val = 0x2B) || decide (u.val = 0x2D)

/-- `.` or `)`, behind the number of a list item. -/
def endsNumber (u : CodeUnit) : Bool := decide (u.val = 0x2E) || decide (u.val = 0x29)

/-- A letter, `/`, `!` or `?`: what a tag begins with, behind its `<`. -/
def startsTag (u : CodeUnit) : Bool :=
  decide (0x41 ≤ u.val) && decide (u.val ≤ 0x5A) ||
    decide (0x61 ≤ u.val) && decide (u.val ≤ 0x7A) ||
    decide (u.val = 0x2F) || decide (u.val = 0x21) || decide (u.val = 0x3F)

/-! ### Lines -/

/-- The lines of a text. -/
def markdownLines (text : JStr) : List JStr :=
  (splitLines lineFeed carriageReturn false text.units).map JStr.mk

/-- The line starts with a mark. -/
def hasMark (mark : String) (line : JStr) : Bool := (lit mark).isPrefixOf line.units

/-- The text has no line break. -/
def OneLine (text : JStr) : Prop := Unbroken lineFeed carriageReturn text.units

/-- The text without a carriage return at its end. -/
def withoutReturn (text : JStr) : JStr := ⟨dropFinal carriageReturn text.units⟩

/-- The text can end a line: its only line break may be a carriage return at its end, which ends the
    line together with the line feed. -/
def EndsLine (text : JStr) : Prop := OneLine (withoutReturn text)

/-! ### Headings -/

/-- After some number signs the mark of a heading is complete: at most six of them stand before a
    blank or the end of the line. -/
def headingMark : ℕ → List CodeUnit → Bool
  | signs, [] => decide (signs ≤ 6)
  | signs, u :: rest =>
    if u = numberSign then headingMark (signs + 1) rest else decide (signs ≤ 6) && isBlank u

/-- The first unit is a blank. -/
def startsBlank (text : List CodeUnit) : Bool := text.head?.any isBlank

/-- What stands from a column on is a heading.  Its container starts at the column `start`, and
    `digits` of a list item's number have been read. -/
def opensHeading : ℕ → ℕ → ℕ → List CodeUnit → Bool
  | _, _, _, [] => false
  | col, start, 0, u :: rest =>
    if u = space then opensHeading (col + 1) start 0 rest
    else if u = tab then opensHeading (col + (4 - col % 4)) start 0 rest
    -- four columns in, a line is code
    else if start + 4 ≤ col then false
    else if u = numberSign then headingMark 1 rest
    else if u = greaterThan then
      opensHeading (col + 1) (if startsBlank rest then col + 2 else col + 1) 0 rest
    else if isBullet u then startsBlank rest && opensHeading (col + 1) (col + 2) 0 rest
    else isDigitUnit u && opensHeading (col + 1) start 1 rest
  | col, start, digits + 1, u :: rest =>
    if isDigitUnit u then opensHeading (col + 1) start (digits + 2) rest
    else endsNumber u && decide (digits < 9) && startsBlank rest &&
      opensHeading (col + 1) (col + 2) 0 rest

/-- The line is a heading, possibly behind the marks of quotes and list items. -/
def readsHeading (line : JStr) : Bool := opensHeading 0 0 0 line.units

/-! ### Rows -/

/-- The cells of a row that starts and ends with a pipe. -/
def cells (row : JStr) : List JStr :=
  (splitBare pipe backslash false row.units).tail.dropLast.map JStr.mk

/-- The rows of a table, without its header and the row of dashes. -/
def bodyRows (lines : List JStr) : List JStr := (lines.filter (hasMark "|")).drop 2

/-- The text has no pipe but after a backslash. -/
def NoBarePipe (text : JStr) : Prop := bareCount pipe backslash false text.units = 0

/-! ### Tags -/

/-- A part of an inline text: a run of backticks, or another unit. -/
inductive Inline where
  | ticks (n : ℕ)
  | unit (u : CodeUnit)
deriving DecidableEq

/-- A backtick before the parts of what follows. -/
def consTick : List Inline → List Inline
  | .ticks n :: rest => .ticks (n + 1) :: rest
  | rest => .ticks 1 :: rest

/-- The parts of a text. -/
def inlines : List CodeUnit → List Inline
  | [] => []
  | u :: rest => if u = tick then consTick (inlines rest) else .unit u :: inlines rest

/-- The part is what a tag begins with. -/
def Inline.startsTag : Inline → Bool
  | .ticks _ => false
  | .unit u => RootSign.startsTag u

/-- A tag begins somewhere: a `<` with no backslash before it, outside the code between two runs of
    as many backticks.  The first argument is the run that opened the code read last, the second
    says that a backslash was read before. -/
def opensTag : Option ℕ → Bool → List Inline → Bool
  | _, _, [] => false
  | some n, _, .ticks m :: rest => opensTag (if m = n then none else some n) false rest
  | some n, _, .unit _ :: rest => opensTag (some n) false rest
  | none, escaped, .ticks m :: rest =>
    -- after a backslash, the first backtick of a run is none
    let n := if escaped then m - 1 else m
    opensTag (if 0 < n ∧ Inline.ticks n ∈ rest then some n else none) false rest
  | none, escaped, .unit u :: rest =>
    decide (u = lessThan) && !escaped && rest.head?.any Inline.startsTag ||
      opensTag none (decide (u = backslash) && !escaped) rest

/-- **No tag begins** in the text. -/
def TagFree (text : JStr) : Prop := opensTag none false (inlines text.units) = false

instance (text : JStr) : Decidable (TagFree text) := inferInstanceAs (Decidable (_ = false))

instance (text : JStr) : Decidable (OneLine text) :=
  List.decidableBAll (fun u => u ≠ lineFeed ∧ u ≠ carriageReturn) text.units

/-- The texts of a line that are read each for itself: the cells of a row, else the line. -/
def inlineTexts (line : JStr) : List JStr := if hasMark "|" line then cells line else [line]

/-- No tag begins in the line. -/
def LineFree (line : JStr) : Prop := ∀ text ∈ inlineTexts line, TagFree text

instance (line : JStr) : Decidable (LineFree line) :=
  List.decidableBAll TagFree (inlineTexts line)

/-! ### Texts on one line -/

section

variable {a b sep : JStr} {parts : List JStr} {s t : String}

@[simp] theorem oneLine_append : OneLine (a ++ b) ↔ OneLine a ∧ OneLine b := unbroken_append

/-- Only the end of a text can lose a carriage return; a first part on one line stays. -/
theorem withoutReturn_append (ha : OneLine a) (b : JStr) :
    withoutReturn (a ++ b) = a ++ withoutReturn b := JStr.ext (dropFinal_append ha b.units)

/-- A text on one line has no carriage return to lose. -/
theorem withoutReturn_of_oneLine (ha : OneLine a) : withoutReturn a = a :=
  JStr.ext (dropFinal_of_unbroken ha)

/-- A text ends a line also behind a text that is on one line. -/
theorem endsLine_append (ha : OneLine a) : EndsLine (a ++ b) ↔ EndsLine b := by
  unfold EndsLine
  rw [withoutReturn_append ha, oneLine_append, and_iff_right ha]

/-- Before more text there is no line break at all. -/
theorem endsLine_append_of_ne (hb : OneLine b) (hne : b.units ≠ []) :
    EndsLine (a ++ b) ↔ OneLine a := by
  have hself : withoutReturn (a ++ b) = a ++ b := by
    apply JStr.ext
    show dropFinal carriageReturn (a.units ++ b.units) = _
    rw [dropFinal_append_of_ne hne, dropFinal_of_unbroken hb]
    rfl
  unfold EndsLine
  rw [hself, oneLine_append, and_iff_left hb]

/-- A text without line break ends a line. -/
theorem endsLine_of_oneLine (h : OneLine a) : EndsLine a := by
  unfold EndsLine
  rwa [withoutReturn_of_oneLine h]

/-- Every unit of a text of characters has the property, where it holds of the units of each. -/
theorem forall_mem_ofChars {p : CodeUnit → Prop} {cs : List Char}
    (h : ∀ c ∈ cs, ∀ u : CodeUnit,
      u.val = c.toNat ∨ 0xD800 ≤ u.val ∧ 0x10000 ≤ c.toNat → p u) :
    ∀ u ∈ (JStr.ofChars cs).units, p u := by
  intro u hu
  obtain ⟨c, hc, hu⟩ := List.mem_flatMap.mp hu
  apply h c hc u
  unfold JStr.encodeChar at hu
  split at hu
  · obtain rfl := List.mem_singleton.mp hu
    exact Or.inl rfl
  · rename_i hastral
    -- the two halves of a pair are surrogates
    have hrange := JStr.toNat_range c
    rcases List.mem_pair.mp hu with rfl | rfl
    · rw [Fin.val_ofNat]
      omega
    · rw [Fin.val_ofNat]
      omega

/-- A character that ends no line. -/
def keepsLine (c : Char) : Bool := decide (0x20 ≤ c.toNat)

/-- Characters that break no line make a text on one line. -/
theorem oneLine_ofChars {cs : List Char} (h : cs.all keepsLine = true) :
    OneLine (JStr.ofChars cs) := by
  apply forall_mem_ofChars
  intro c hc u hu
  have hchar : 0x20 ≤ c.toNat := of_decide_eq_true (List.all_eq_true.mp h c hc)
  have hval : 0x20 ≤ u.val := by omega
  refine ⟨fun hlf => ?_, fun hcr => ?_⟩
  · rw [hlf] at hval
    exact absurd hval (by decide)
  · rw [hcr] at hval
    exact absurd hval (by decide)

/-- The characters of a literal, which may be written in several pieces. -/
def Spells (s : String) (cs : List Char) : Prop := s.toList = cs

/-- A literal is spelled by its own characters. -/
theorem Spells.literal {cs : List Char} : Spells (String.ofList cs) cs := String.toList_ofList

/-- Two texts, one behind the other, are spelled by their characters in turn. -/
theorem Spells.append {cs others : List Char} (hs : Spells s cs) (ht : Spells t others) :
    Spells (s ++ t) (cs ++ others) := by
  rw [Spells, String.toList_append, hs, ht]

/-- What is decided of its characters holds of the literal. -/
theorem Spells.decided {p : JStr → Prop} {cs : List Char} (h : Spells s cs)
    (hp : p (JStr.ofChars cs)) : p (JStr.ofString s) := by
  rwa [JStr.ofString, h]

/-- The units of two texts, one behind the other. -/
theorem ofString_append : JStr.ofString (s ++ t) = JStr.ofString s ++ JStr.ofString t := by
  rw [JStr.ofString, String.toList_append]
  exact JStr.ext_iff.mpr List.flatMap_append

/-- Printable characters break no line. -/
theorem oneLine_printable {cs : List Char} (h : Printable cs) : OneLine (JStr.ofChars cs) := by
  apply oneLine_ofChars
  rw [List.all_eq_true]
  intro c hc
  exact decide_eq_true (of_decide_eq_true (h c hc)).1

@[simp] theorem oneLine_decimal (n : ℤ) : OneLine (decimal n) :=
  oneLine_printable (printable_intText n)

/-- A number is written in digits. -/
theorem isDigitUnit_decimal (n : ℕ) : ∀ u ∈ (decimal n).units, isDigitUnit u = true := by
  unfold decimal intText
  rw [if_neg (by omega)]
  apply forall_mem_ofChars
  intro c hc u hu
  have hdigit := isDigit_of_mem_toDigits c hc
  rw [Char.isDigit, Bool.and_eq_true, decide_eq_true_eq, decide_eq_true_eq] at hdigit
  have hlow : (48 : ℕ) ≤ c.toNat := hdigit.1
  have hhigh : c.toNat ≤ 57 := hdigit.2
  rw [isDigitUnit, Bool.and_eq_true, decide_eq_true_eq, decide_eq_true_eq]
  omega

/-- No number is written as the empty text. -/
theorem decimal_ne_nil (n : ℕ) : (decimal n).units ≠ [] := by
  obtain ⟨c, cs, htext, -⟩ := intText_head n
  rw [decimal, htext]
  exact List.append_ne_nil_of_left_ne_nil (JStr.encodeChar_ne_nil c) _

/-- What holds of every unit of the parts and of what stands between them holds of the whole. -/
theorem forall_mem_joinUnits {p : CodeUnit → Prop} {sep : List CodeUnit}
    {parts : List (List CodeUnit)} (hsep : ∀ u ∈ sep, p u) :
    (∀ u ∈ joinUnits sep parts, p u) ↔ ∀ part ∈ parts, ∀ u ∈ part, p u := by
  fun_induction joinUnits sep parts with
  | case1 => simp
  | case2 part => simp
  | case3 part rest hne ih =>
    rw [List.forall_mem_append, List.forall_mem_append, ih, List.forall_mem_cons,
      and_iff_left hsep]

end

/-! ### Texts without a tag -/

section

variable {a b : JStr} {s t : List CodeUnit}

/-- A unit that says nothing inside a line: no backtick, no `<` and no backslash. -/
def Quiet (text : JStr) : Prop := ∀ u ∈ text.units, u ≠ tick ∧ u ≠ lessThan ∧ u ≠ backslash

/-- A text that says nothing, on one line. -/
structure Silent (text : JStr) : Prop where
  oneLine : OneLine text
  quiet : Quiet text

/-- A character that says nothing and ends no line. -/
def silentChar (c : Char) : Bool :=
  keepsLine c && decide (c.toNat ≠ 0x60) && decide (c.toNat ≠ 0x3C) && decide (c.toNat ≠ 0x5C)

/-- Characters that are silent one by one make a silent text. -/
theorem silent_ofChars {cs : List Char} (h : cs.all silentChar = true) :
    Silent (JStr.ofChars cs) := by
  have hchars : ∀ c ∈ cs, ((keepsLine c = true ∧ c.toNat ≠ 0x60) ∧ c.toNat ≠ 0x3C) ∧
      c.toNat ≠ 0x5C := by
    intro c hc
    have hchar := List.all_eq_true.mp h c hc
    simpa only [silentChar, Bool.and_eq_true, decide_eq_true_eq] using hchar
  constructor
  · exact oneLine_ofChars (List.all_eq_true.mpr fun c hc => (hchars c hc).1.1.1)
  · apply forall_mem_ofChars
    intro c hc u hu
    have hchar := hchars c hc
    simp only [ne_eq, Fin.ext_iff, tick, lessThan, backslash]
    omega

/-- A literal of such characters. -/
theorem Spells.silent {s : String} {cs : List Char} (h : Spells s cs)
    (hcs : cs.all silentChar = true) : Silent (JStr.ofString s) := h.decided (silent_ofChars hcs)

theorem quiet_append : Quiet (a ++ b) ↔ Quiet a ∧ Quiet b := List.forall_mem_append

/-- The digits of a number say nothing, nor does its sign. -/
theorem quiet_decimal (n : ℤ) : Quiet (decimal n) := by
  have hdigits : ∀ m : ℕ, Quiet (decimal m) := by
    intro m u hu
    have hdigit := isDigitUnit_decimal m u hu
    refine ⟨?_, ?_, ?_⟩ <;> (rintro rfl; exact absurd hdigit (by decide))
  obtain ⟨m, rfl | rfl⟩ := n.eq_nat_or_neg
  · exact hdigits m
  · by_cases hzero : m = 0
    · subst hzero
      exact hdigits 0
    · have hsign : decimal (-(m : ℤ)) = JStr.ofChars ['-'] ++ decimal m := by
        unfold decimal intText
        rw [if_pos (by omega), if_neg (by omega), Int.natAbs_neg]
        rfl
      rw [hsign]
      exact quiet_append.mpr ⟨(silent_ofChars (by decide)).quiet, hdigits m⟩

/-- Numbers are silent. -/
theorem silent_decimal (n : ℤ) : Silent (decimal n) := ⟨oneLine_decimal n, quiet_decimal n⟩

/-- Two silent texts, one behind the other, are silent. -/
theorem Silent.append (ha : Silent a) (hb : Silent b) : Silent (a ++ b) :=
  ⟨oneLine_append.mpr ⟨ha.oneLine, hb.oneLine⟩, quiet_append.mpr ⟨ha.quiet, hb.quiet⟩⟩

/-- Silent parts stay silent around a silent separator. -/
theorem silent_joinText {sep : JStr} {parts : List JStr} (hsep : Silent sep)
    (h : ∀ part ∈ parts, Silent part) : Silent (joinText sep parts) := by
  constructor
  · exact (forall_mem_joinUnits hsep.oneLine).mpr (List.forall_mem_map.mpr fun part hpart =>
      (h part hpart).oneLine)
  · exact (forall_mem_joinUnits hsep.quiet).mpr (List.forall_mem_map.mpr fun part hpart =>
      (h part hpart).quiet)

/-- Outside code every unit but a backtick is read as itself. -/
theorem inlines_of_ne {u : CodeUnit} (hu : u ≠ tick) (rest : List CodeUnit) :
    inlines (u :: rest) = .unit u :: inlines rest := if_neg hu

/-- What a run of backticks does not start is read for itself. -/
theorem inlines_append (ht : t.head? ≠ some tick) : inlines (s ++ t) = inlines s ++ inlines t := by
  have hcons : ∀ parts, consTick (parts ++ inlines t) = consTick parts ++ inlines t := by
    intro parts
    cases parts with
    | cons part rest => cases part <;> rfl
    | nil =>
      cases t with
      | nil => rfl
      | cons u rest =>
        have hu : u ≠ tick := fun h => ht (congrArg some h)
        rw [List.nil_append, inlines_of_ne hu]
        rfl
  induction s with
  | nil => rfl
  | cons u s ih =>
    rw [List.cons_append, inlines, inlines, ih]
    split_ifs
    · exact hcons _
    · rfl

/-- The parts of a text without backticks are its units. -/
theorem inlines_eq_map (h : ∀ u ∈ s, u ≠ tick) : inlines s = s.map Inline.unit := by
  induction s with
  | nil => rfl
  | cons u s ih =>
    obtain ⟨hu, hs⟩ := List.forall_mem_cons.mp h
    rw [inlines_of_ne hu, ih hs, List.map_cons]

/-- Units other than `<` begin no tag. -/
theorem opensTag_units (h : ∀ u ∈ s, u ≠ lessThan) (code : Option ℕ) (escaped : Bool) :
    opensTag code escaped (s.map Inline.unit) = false := by
  induction s generalizing code escaped with
  | nil => cases code <;> rfl
  | cons u s ih =>
    obtain ⟨hu, hs⟩ := List.forall_mem_cons.mp h
    rw [List.map_cons]
    cases code with
    | none => rw [opensTag, decide_eq_false hu, ih hs, Bool.false_and, Bool.false_and,
      Bool.or_false]
    | some n => rw [opensTag, ih hs]

/-- Behind a text, units that neither begin a tag nor are the first of one change nothing. -/
theorem opensTag_append (h : ∀ u ∈ s, u ≠ lessThan) (hhead : s.head?.any startsTag = false)
    (parts : List Inline) (code : Option ℕ) (escaped : Bool) :
    opensTag code escaped (parts ++ s.map Inline.unit) = opensTag code escaped parts := by
  have hrun : ∀ n rest, (Inline.ticks n ∈ rest ++ s.map Inline.unit) ↔ Inline.ticks n ∈ rest := by
    intro n rest
    rw [List.mem_append, or_iff_left]
    simp
  have hstart : ∀ rest : List Inline, (rest ++ s.map Inline.unit).head?.any Inline.startsTag =
      rest.head?.any Inline.startsTag := by
    intro rest
    cases rest with
    | cons part others => rfl
    | nil =>
      cases s with
      | nil => rfl
      | cons u others => exact hhead
  induction parts generalizing code escaped with
  | nil =>
    rw [List.nil_append, opensTag_units h]
    cases code <;> rfl
  | cons part rest ih =>
    rw [List.cons_append]
    cases code with
    | some n => cases part <;> simp only [opensTag, ih]
    | none => cases part <;> simp only [opensTag, ih, hrun, hstart]

/-- Text that says nothing changes nothing in front. -/
theorem tagFree_quiet_append (ha : Quiet a) : TagFree (a ++ b) ↔ TagFree b := by
  obtain ⟨units⟩ := a
  unfold TagFree
  show opensTag none false (inlines (units ++ b.units)) = false ↔ _
  induction units with
  | nil => rfl
  | cons u rest ih =>
    obtain ⟨⟨htick, hless, hslash⟩, hrest⟩ := List.forall_mem_cons.mp ha
    rw [List.cons_append, inlines_of_ne htick, opensTag, decide_eq_false hless,
      decide_eq_false hslash, Bool.false_and, Bool.false_and, Bool.false_or]
    exact ih hrest

/-- Nor does it behind a text, unless it starts as the name of a tag does. -/
theorem tagFree_append_of_quiet (hb : Quiet b) (hhead : b.units.head?.any startsTag = false) :
    TagFree (a ++ b) ↔ TagFree a := by
  have htick : ∀ u ∈ b.units, u ≠ tick := fun u hu => (hb u hu).1
  have hhead' : b.units.head? ≠ some tick := fun h => htick tick (List.mem_of_head? h) rfl
  unfold TagFree
  rw [JStr.units_append, inlines_append hhead', inlines_eq_map htick,
    opensTag_append (fun u hu => (hb u hu).2.1) hhead]

/-- A quiet text opens no tag. -/
theorem tagFree_of_quiet (ha : Quiet a) : TagFree a := by
  have hempty : TagFree (a ++ (⟨[]⟩ : JStr)) := (tagFree_quiet_append ha).mpr rfl
  rwa [show a ++ (⟨[]⟩ : JStr) = a from JStr.ext (List.append_nil _)] at hempty

/-- A text that says nothing has no tag in its cells either. -/
theorem lineFree_of_quiet (ha : Quiet a) : LineFree a := by
  intro text htext
  rw [inlineTexts] at htext
  split_ifs at htext
  · obtain ⟨part, hpart, rfl⟩ := List.mem_map.mp htext
    have hmem := mem_of_mem_splitBare (List.mem_of_mem_tail (List.mem_of_mem_dropLast hpart))
    exact tagFree_of_quiet fun u hu => ha u (hmem u hu)
  · obtain rfl := List.mem_singleton.mp htext
    exact tagFree_of_quiet ha

/-- A carriage return at the end of a line is part of no tag. -/
theorem tagFree_withoutReturn : TagFree (withoutReturn a) ↔ TagFree a := by
  have hquiet : Quiet ⟨[carriageReturn]⟩ := by
    intro u hu
    obtain rfl := List.mem_singleton.mp hu
    decide
  rcases dropFinal_cases carriageReturn a.units with hself | hcr
  · rw [show withoutReturn a = a from JStr.ext hself]
  · have hline : withoutReturn a ++ (⟨[carriageReturn]⟩ : JStr) = a := JStr.ext hcr.symm
    rw [← tagFree_append_of_quiet hquiet rfl, hline]

end

/-! ### Texts that are no headings -/

section

variable {line : JStr} {s : List CodeUnit}

/-- A unit no heading and no mark before one starts with. -/
def startsText (u : CodeUnit) : Bool :=
  !(isBlank u || decide (u = numberSign) || decide (u = greaterThan) || isBullet u || isDigitUnit u)

/-- The line starts with such a unit. -/
def StartsText (line : JStr) : Prop := line.units.head?.any startsText = true

instance (line : JStr) : Decidable (StartsText line) := inferInstanceAs (Decidable (_ = true))

/-- A line that starts with text does so whatever follows. -/
theorem StartsText.append (h : StartsText line) (rest : JStr) : StartsText (line ++ rest) := by
  unfold StartsText at h ⊢
  rw [JStr.units_append]
  cases hunits : line.units with
  | nil =>
    rw [hunits] at h
    cases h
  | cons u tail =>
    rw [hunits] at h
    exact h

/-- A line that starts with text is no heading. -/
theorem readsHeading_of_startsText (h : StartsText line) : readsHeading line = false := by
  unfold StartsText at h
  unfold readsHeading
  cases hunits : line.units with
  | nil => rfl
  | cons u rest =>
    rw [hunits] at h
    simp only [List.head?_cons, Option.any_some, startsText, isBlank, Bool.not_eq_true',
      Bool.or_eq_false_iff, decide_eq_false_iff_not] at h
    obtain ⟨⟨⟨⟨⟨hspace, htab⟩, hsign⟩, hgreater⟩, hbullet⟩, hdigit⟩ := h
    rw [opensHeading, if_neg hspace, if_neg htab, if_neg (by omega), if_neg hsign,
      if_neg hgreater, if_neg (by rw [hbullet]; exact Bool.false_ne_true), hdigit, Bool.false_and]

/-- Nor is it without its carriage return. -/
theorem StartsText.notHeading (h : StartsText line) :
    readsHeading (withoutReturn line) = false := by
  rcases dropFinal_cases carriageReturn line.units with hself | hcr
  · rw [show withoutReturn line = line from JStr.ext hself]
    exact readsHeading_of_startsText h
  · unfold StartsText at h
    cases hunits : dropFinal carriageReturn line.units with
    | nil =>
      rw [show withoutReturn line = ⟨[]⟩ from JStr.ext hunits]
      rfl
    | cons u rest =>
      apply readsHeading_of_startsText
      rw [hcr, hunits] at h
      unfold StartsText withoutReturn
      rwa [hunits]

/-- Digits and a blank are no number of a list item. -/
theorem opensHeading_digits (hs : ∀ u ∈ s, isDigitUnit u = true) (col start digits : ℕ)
    (rest : List CodeUnit) : opensHeading col start (digits + 1) (s ++ space :: rest) = false := by
  induction s generalizing col digits with
  | nil => rfl
  | cons u s ih =>
    obtain ⟨hu, hs⟩ := List.forall_mem_cons.mp hs
    rw [List.cons_append, opensHeading, if_pos hu]
    exact ih hs _ _

/-- Nor is a line that starts with a number and a blank a heading. -/
theorem readsHeading_decimal (n : ℕ) {rest : JStr} (hrest : rest.units.head? = some space) :
    readsHeading (decimal n ++ rest) = false := by
  -- after the digits comes the blank
  obtain ⟨tail, htail⟩ : ∃ tail, rest.units = space :: tail := by
    cases hunits : rest.units with
    | nil => simp [hunits] at hrest
    | cons u tail =>
      rw [hunits] at hrest
      exact ⟨tail, by rw [Option.some.inj hrest]⟩
  have hdigits := isDigitUnit_decimal n
  unfold readsHeading
  rw [JStr.units_append, htail]
  cases hunits : (decimal n).units with
  | nil => exact absurd hunits (decimal_ne_nil n)
  | cons u digits =>
    rw [hunits] at hdigits
    obtain ⟨hu, hdigits⟩ := List.forall_mem_cons.mp hdigits
    -- the first digit is none of the marks that open a block
    have hstart : opensHeading 0 0 0 (u :: (digits ++ space :: tail)) =
        opensHeading 1 0 1 (digits ++ space :: tail) := by
      rw [isDigitUnit, Bool.and_eq_true, decide_eq_true_eq, decide_eq_true_eq] at hu
      have hother : ∀ v : CodeUnit, v.val < 0x30 ∨ 0x39 < v.val → u ≠ v := fun v hv heq => by
        rw [heq] at hu
        omega
      have hbullet : isBullet u = false := by simp [isBullet]; omega
      rw [opensHeading, if_neg (hother space (by decide)), if_neg (hother tab (by decide)),
        if_neg (by omega), if_neg (hother numberSign (by decide)),
        if_neg (hother greaterThan (by decide)), hbullet, if_neg Bool.false_ne_true]
      simp [isDigitUnit, hu]
    rw [List.cons_append, hstart]
    exact opensHeading_digits hdigits 1 0 0 tail

/-- Behind a colon nothing completes the mark of a heading. -/
theorem headingMark_colon (signs : ℕ) (s rest : List CodeUnit) :
    headingMark signs (s ++ colon :: rest) = headingMark signs (s ++ [colon]) := by
  induction s generalizing signs with
  | nil => rfl
  | cons u s ih =>
    rw [List.cons_append, List.cons_append, headingMark, headingMark, ih]

end

/-! ### Rows of cells -/

section

variable {parts : List JStr} {a : JStr}

/-- A row with the given texts in its cells. -/
def rowOf (parts : List JStr) : JStr :=
  ⟨pipe :: parts.flatMap fun t => space :: (t.units ++ [space, pipe])⟩

/-- A text set as code. -/
def code (text : JStr) : JStr := "`" ++ text ++ "`"

@[simp] theorem bareCount_pipe (rest : List CodeUnit) :
    bareCount pipe backslash false (pipe :: rest) = bareCount pipe backslash false rest + 1 := by
  rw [bareCount, if_pos ⟨rfl, rfl⟩, Nat.add_comm]
  rfl

/-- A unit that is neither a pipe nor a backslash does not count. -/
theorem bareCount_other {u : CodeUnit} (hpipe : u ≠ pipe) (hslash : u ≠ backslash)
    (rest : List CodeUnit) :
    bareCount pipe backslash false (u :: rest) = bareCount pipe backslash false rest := by
  rw [bareCount, if_neg fun h => hpipe h.1, Nat.zero_add, decide_eq_false hslash]

/-- A row has a cell for each of its texts, and one for each bare pipe in them. -/
theorem cellCount_rowOf (parts : List JStr) : (cells (rowOf parts)).length =
    parts.length + (parts.map fun t => bareCount pipe backslash false t.units).sum := by
  have hspace : ∀ rest, bareCount pipe backslash false (space :: rest) =
      bareCount pipe backslash false rest := bareCount_other (by decide) (by decide)
  have hcount : ∀ parts : List JStr, bareCount pipe backslash false
      (parts.flatMap fun t => space :: (t.units ++ [space, pipe])) =
      parts.length + (parts.map fun t => bareCount pipe backslash false t.units).sum := by
    intro parts
    induction parts with
    | nil => rfl
    | cons t rest ih =>
      have hcut : (t :: rest).flatMap (fun t => space :: (t.units ++ [space, pipe])) =
          space :: (t.units ++ space :: pipe ::
            rest.flatMap fun t => space :: (t.units ++ [space, pipe])) := by
        simp
      rw [hcut, hspace, bareCount_append (by decide), hspace, bareCount_pipe, ih, List.map_cons,
        List.sum_cons, List.length_cons]
      omega
  rw [cells, List.length_map, List.length_dropLast, List.length_tail, length_splitBare, rowOf,
    bareCount_pipe, hcount]
  omega

/-- The cells of a row are its texts, where none of these has a bare pipe. -/
theorem cells_rowOf (h : ∀ t ∈ parts, NoBarePipe t) :
    cells (rowOf parts) = parts.map fun t => ⟨[space]⟩ ++ t ++ ⟨[space]⟩ := by
  have hparts : ∀ parts : List JStr, (∀ t ∈ parts, NoBarePipe t) →
      splitBare pipe backslash false (parts.flatMap fun t => space :: (t.units ++ [space, pipe])) =
        parts.map (fun t => space :: (t.units ++ [space])) ++ [[]] := by
    intro parts
    induction parts with
    | nil => exact fun _ => rfl
    | cons t rest ih =>
      intro h
      obtain ⟨ht, hrest⟩ := List.forall_mem_cons.mp h
      have hcut : (t :: rest).flatMap (fun t => space :: (t.units ++ [space, pipe])) =
          (space :: t.units) ++ space :: pipe ::
            rest.flatMap fun t => space :: (t.units ++ [space, pipe]) := by
        simp
      have hfront : bareCount pipe backslash false (space :: t.units) = 0 :=
        (bareCount_other (by decide) (by decide) _).trans ht
      rw [hcut, splitBare_append (by decide) (by decide) (by decide) _ hfront, ih hrest]
      rfl
  have hrow : splitBare pipe backslash false (rowOf parts).units =
      [] :: (parts.map (fun t => space :: (t.units ++ [space])) ++ [[]]) := by
    rw [rowOf, splitBare, if_pos ⟨rfl, rfl⟩, ← hparts parts h]
    rfl
  rw [cells, hrow, List.tail_cons, List.dropLast_concat, List.map_map]
  rfl

/-- An escaped text has no bare pipe. -/
theorem noBarePipe_escapePipes (text : JStr) : NoBarePipe (escapePipes text) := by
  have hunits : (escapePipes text).units =
      text.units.flatMap fun u => if u = pipe then [backslash, pipe] else [u] := by
    apply List.flatMap_congr
    intro u _
    exact if_congr (Fin.ext_iff (b := pipe)).symm rfl rfl
  rw [NoBarePipe, hunits]
  exact bareCount_flatMap (by decide) _ _

/-- A row is on one line exactly if each of its cells is. -/
theorem oneLine_rowOf : OneLine (rowOf parts) ↔ ∀ t ∈ parts, OneLine t := by
  have hspace : space ≠ lineFeed ∧ space ≠ carriageReturn := by decide
  have hpipe : pipe ≠ lineFeed ∧ pipe ≠ carriageReturn := by decide
  show (∀ u ∈ pipe :: _, _) ↔ _
  rw [List.forall_mem_cons, and_iff_right hpipe, List.forall_mem_flatMap]
  refine forall₂_congr fun t _ => ?_
  rw [List.forall_mem_cons, and_iff_right hspace, List.forall_mem_append, and_iff_left]
  · rfl
  · simp [hspace, hpipe]

end

end RootSign
