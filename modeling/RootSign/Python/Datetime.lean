import RootSign.Python.Dumps

namespace RootSign.Python

/-!
# `datetime`

A `datetime` is a wall-clock reading between the years 1 and 9999 with an optional UTC
offset, both to the microsecond.

* `PyDateTime.add` — `t + timedelta`, which raises `OverflowError` past the year 9999;
* `PyDateTime.lt` — `<`, which raises `TypeError` between naive and aware values;
* `PyDateTime.toUtc` — the same instant at offset zero, when it is representable;
* `PyDateTime.isoformat` — the text `isoformat()` writes; `isoformat_toUtc_iff` says that
  rewriting an instant in UTC changes the text unless the offset was zero already.
-/

/-- Microseconds in a day. -/
def dayTicks : ℕ := 86400000000

/-- Microseconds from `datetime.min` to just past `datetime.max`. -/
def maxTicks : ℕ := 3652059 * dayTicks

/-- A `datetime`: microseconds of wall clock since year 1, and the UTC offset if aware. -/
@[ext] structure PyDateTime where
  ticks : ℕ
  offset : Option ℤ
  ticks_lt : ticks < maxTicks
  offset_lt : ∀ o ∈ offset, -(dayTicks : ℤ) < o ∧ o < dayTicks
deriving DecidableEq

/-- Offset zero is an offset. -/
theorem zeroOffset_lt : ∀ o ∈ some (0 : ℤ), -(dayTicks : ℤ) < o ∧ o < dayTicks := by decide

/-- A reading of `datetime.now(timezone.utc)`, taken before the last day of the year 9999. -/
structure UtcNow where
  time : PyDateTime
  utc : time.offset = some 0
  in_range : time.ticks + dayTicks < maxTicks

namespace PyDateTime

/-- `t.utcoffset() is not None`. -/
def aware (t : PyDateTime) : Bool := t.offset.isSome

/-- Microseconds of UTC since year 1. -/
def instant (t : PyDateTime) : ℤ := t.ticks - t.offset.getD 0

/-- `t + timedelta(microseconds=d)`. -/
def add (t : PyDateTime) (d : ℕ) : Except PyError PyDateTime :=
  if h : t.ticks + d < maxTicks then .ok { t with ticks := t.ticks + d, ticks_lt := h }
  else .error .overflowError

/-- `t < u`. -/
def lt (t u : PyDateTime) : Except PyError Bool :=
  if t.aware = u.aware then .ok (decide (t.instant < u.instant)) else .error .typeError

/-- `t <= u`. -/
def le (t u : PyDateTime) : Except PyError Bool :=
  if t.aware = u.aware then .ok (decide (t.instant ≤ u.instant)) else .error .typeError

/-- `min(t, u)`. -/
def min (t u : PyDateTime) : Except PyError PyDateTime := do
  if ← u.lt t then return u else return t

/-- `t.astimezone(utc)`, when the instant lies between the years 1 and 9999. -/
def toUtc (t : PyDateTime) : Option PyDateTime :=
  if h : 0 ≤ t.instant ∧ t.instant < maxTicks then
    some
      { ticks := t.instant.toNat
        offset := some 0
        ticks_lt := by omega
        offset_lt := zeroOffset_lt }
  else none

/-- Aware values compare without raising. -/
theorem le_of_aware {t u : PyDateTime} (ht : t.aware = true) (hu : u.aware = true) :
    t.le u = .ok (decide (t.instant ≤ u.instant)) := by
  rw [le, if_pos (by rw [ht, hu])]

/-- The earlier of two aware values is one of them. -/
theorem min_of_aware {t u : PyDateTime} (ht : t.aware = true) (hu : u.aware = true) :
    ∃ v, t.min u = .ok v ∧ v.aware = true := by
  rw [min, lt, if_pos (by rw [ht, hu])]
  cases decide (u.instant < t.instant)
  · exact ⟨t, rfl, ht⟩
  · exact ⟨u, rfl, hu⟩

/-- `t + timedelta(microseconds=d)` is representable. -/
@[irreducible] def canAdd (t : PyDateTime) (d : ℕ) : Bool := decide (t.ticks + d < maxTicks)

theorem add_of_canAdd {t : PyDateTime} {d : ℕ} (h : t.canAdd d = true) : ∃ u, t.add d = .ok u := by
  rw [canAdd, decide_eq_true_eq] at h
  rw [add, dif_pos h]
  exact ⟨_, rfl⟩

theorem add_of_not_canAdd {t : PyDateTime} {d : ℕ} (h : t.canAdd d = false) :
    t.add d = .error .overflowError := by
  rw [canAdd, decide_eq_false_iff_not] at h
  rw [add, dif_neg h]

/-- Adding keeps the offset. -/
theorem add_aware {t u : PyDateTime} {d : ℕ} (h : t.add d = .ok u) : u.aware = t.aware := by
  unfold add at h
  split at h
  · rw [← Except.ok.inj h]; rfl
  · exact absurd h (by simp)

/-- Adding moves the instant. -/
theorem add_instant {t u : PyDateTime} {d : ℕ} (h : t.add d = .ok u) :
    u.instant = t.instant + d := by
  unfold add at h
  split at h
  · rw [← Except.ok.inj h]
    simp only [instant]
    push_cast
    omega
  · exact absurd h (by simp)

/-- The earlier of two aware values. -/
theorem min_instant {t u v : PyDateTime} (h : t.min u = .ok v) :
    v.instant = Min.min t.instant u.instant := by
  unfold min lt at h
  by_cases haware : u.aware = t.aware
  · rw [if_pos haware] at h
    obtain ⟨b, hb, h⟩ := bind_eq_ok.mp h
    rw [Except.ok.injEq] at hb
    subst hb
    by_cases hlt : u.instant < t.instant
    · simp only [hlt, decide_true, if_true] at h
      rw [← Except.ok.inj h, min_eq_right hlt.le]
    · simp only [hlt, decide_false, Bool.false_eq_true, if_false] at h
      rw [← Except.ok.inj h, min_eq_left (not_lt.mp hlt)]
  · rw [if_neg haware] at h
    exact absurd h (by simp [bind, Except.bind])

/-- Comparing a value with an offset and one without raises. -/
theorem min_of_naive {t u : PyDateTime} (ht : t.aware = false) (hu : u.aware = true) :
    t.min u = .error .typeError := by
  rw [min, lt, if_neg (by simp [ht, hu])]
  rfl

/-! ### `isoformat` -/

/-- `"%0*d" % (width, n)`. -/
def padded (width n : ℕ) : List Char :=
  let ds := Nat.toDigits 10 n
  List.replicate (width - ds.length) '0' ++ ds

/-- Days before a month of a common year. -/
def daysBeforeMonth (month : ℕ) : ℕ :=
  [0, 0, 31, 59, 90, 120, 151, 181, 212, 243, 273, 304, 334].getD month 0

/-- Days of a month of a common year. -/
def daysInMonth (month : ℕ) : ℕ :=
  [0, 31, 28, 31, 30, 31, 30, 31, 31, 30, 31, 30, 31].getD month 0

/-- Year, month and day of the `n`-th day since year 1, counted from zero. -/
def ordToYmd (n : ℕ) : ℕ × ℕ × ℕ :=
  let n400 := n / 146097
  let n := n % 146097
  let n100 := n / 36524
  let n := n % 36524
  let n4 := n / 1461
  let n := n % 1461
  let n1 := n / 365
  let n := n % 365
  let year := n400 * 400 + 1 + n100 * 100 + n4 * 4 + n1
  if n1 = 4 ∨ n100 = 4 then (year - 1, 12, 31)
  else
    let leap := n1 = 3 ∧ (n4 ≠ 24 ∨ n100 = 3)
    let month := (n + 50) / 32
    let preceding := daysBeforeMonth month + (if 2 < month ∧ leap then 1 else 0)
    if n < preceding then
      let month := month - 1
      let preceding := preceding - (daysInMonth month + (if month = 2 ∧ leap then 1 else 0))
      (year, month, n - preceding + 1)
    else (year, month, n - preceding + 1)

/-- The date and time part of `isoformat()`. -/
def wallText (ticks : ℕ) : List Char :=
  let (year, month, day) := ordToYmd (ticks / dayTicks)
  let micros := ticks % dayTicks
  let seconds := micros / 1000000
  padded 4 year ++ '-' :: padded 2 month ++ '-' :: padded 2 day ++ 'T' ::
    padded 2 (seconds / 3600) ++ ':' :: padded 2 (seconds / 60 % 60) ++ ':' ::
    padded 2 (seconds % 60) ++
    (if micros % 1000000 = 0 then [] else '.' :: padded 6 (micros % 1000000))

/-- The offset part of `isoformat()`: `±hh:mm`, with seconds and microseconds if any. -/
def offsetText (o : ℤ) : List Char :=
  let micros := o.natAbs
  let seconds := micros / 1000000
  (if o < 0 then '-' else '+') :: padded 2 (seconds / 3600) ++ ':' ::
    padded 2 (seconds / 60 % 60) ++
    (if micros % 60000000 = 0 then []
     else ':' :: padded 2 (seconds % 60) ++
      (if micros % 1000000 = 0 then [] else '.' :: padded 6 (micros % 1000000)))

/-- `t.isoformat()`. -/
def isoformat (t : PyDateTime) : List Char :=
  wallText t.ticks ++ (t.offset.map offsetText).getD []

/-! ### Rewriting in UTC -/

theorem length_padded_two {n : ℕ} (h : n < 100) : (padded 2 n).length = 2 := by
  have hall : ∀ m < 100, (padded 2 m).length = 2 := by decide
  exact hall n h

theorem padded_two_eq_zero {n : ℕ} (h : n < 100) (heq : padded 2 n = ['0', '0']) : n = 0 := by
  have hall : ∀ m < 100, padded 2 m = ['0', '0'] → m = 0 := by decide
  exact hall n h heq

theorem le_length_padded (width n : ℕ) : width ≤ (padded width n).length := by
  simp only [padded, List.length_append, List.length_replicate]
  omega

theorem isDigit_of_mem_padded {width n : ℕ} : ∀ c ∈ padded width n, c.isDigit = true := by
  intro c hc
  rcases List.mem_append.mp hc with hc | hc
  · rw [List.eq_of_mem_replicate hc]
    rfl
  · exact isDigit_of_mem_toDigits c hc

/-- The offset text that UTC is written with. -/
def utcText : List Char := ['+', '0', '0', ':', '0', '0']

theorem offsetText_zero : offsetText 0 = utcText := by decide

/-- Only offset zero is written with the text of UTC at the end, whatever stands before it:
    a text that ends in seconds has a colon where the sign should be, and one that ends in
    microseconds has a digit there. -/
theorem offset_eq_zero_of_suffix {o : ℤ} (ho : -(dayTicks : ℤ) < o ∧ o < dayTicks)
    {front front' : List Char} (h : front ++ offsetText o = front' ++ utcText) : o = 0 := by
  have hday : o.natAbs < 86400000000 := by
    have : dayTicks = 86400000000 := rfl
    omega
  have hhour : o.natAbs / 1000000 / 3600 < 100 := by omega
  have hminute : o.natAbs / 1000000 / 60 % 60 < 100 := by omega
  have hsecond : o.natAbs / 1000000 % 60 < 100 := by omega
  have hlh := length_padded_two hhour
  have hlm := length_padded_two hminute
  have hls := length_padded_two hsecond
  unfold offsetText at h
  simp only at h
  by_cases hmin : o.natAbs % 60000000 = 0
  · rw [if_pos hmin, List.append_nil] at h
    have hsuffix := List.append_inj_right' h (by simp [utcText, hlh, hlm])
    obtain ⟨hsign, hrest⟩ := List.cons.inj hsuffix
    have hrest' : padded 2 (o.natAbs / 1000000 / 3600) ++
        (':' :: padded 2 (o.natAbs / 1000000 / 60 % 60)) =
          ['0', '0'] ++ (':' :: ['0', '0']) := hrest
    have hh := padded_two_eq_zero hhour (List.append_inj_left hrest' hlh)
    have hm := padded_two_eq_zero hminute
      (List.cons.inj (List.append_inj_right hrest' hlh)).2
    omega
  · rw [if_neg hmin] at h
    by_cases hsec : o.natAbs % 1000000 = 0
    · rw [if_pos hsec] at h
      have h' : (front ++ (if o < 0 then '-' else '+') ::
          padded 2 (o.natAbs / 1000000 / 3600)) ++
          (':' :: (padded 2 (o.natAbs / 1000000 / 60 % 60) ++
            ':' :: padded 2 (o.natAbs / 1000000 % 60))) = front' ++ utcText := by
        rw [← h]
        simp
      have hsuffix := List.append_inj_right' h' (by simp [utcText, hlm, hls])
      exact absurd (List.cons.inj hsuffix).1 (by decide)
    · rw [if_neg hsec] at h
      generalize hmicro : padded 6 (o.natAbs % 1000000) = micro at h
      have hlen : 6 ≤ micro.length := by
        rw [← hmicro]
        exact le_length_padded 6 _
      have hdigit : ∀ c ∈ micro, c.isDigit = true := by
        rw [← hmicro]
        exact isDigit_of_mem_padded
      -- the last six characters are digits
      obtain ⟨before, hbefore⟩ : ∃ before, before ++ micro = front' ++ utcText := by
        refine ⟨front ++ ((if o < 0 then '-' else '+') :: padded 2 (o.natAbs / 1000000 / 3600) ++
          (':' :: padded 2 (o.natAbs / 1000000 / 60 % 60)) ++
          (':' :: padded 2 (o.natAbs / 1000000 % 60) ++ ['.'])), ?_⟩
        rw [← h]
        simp
      rw [← List.take_append_drop (micro.length - 6) micro, ← List.append_assoc] at hbefore
      have hsuffix := List.append_inj_right' hbefore (by simp [utcText]; omega)
      have hplus : '+' ∈ micro := List.mem_of_mem_drop (by rw [hsuffix]; decide)
      exact absurd (hdigit '+' hplus) (by decide)

/-- **Rewriting an instant in UTC** changes its text unless the offset was zero already. -/
theorem isoformat_toUtc_iff {t u : PyDateTime} (ht : t.aware = true) (hu : t.toUtc = some u) :
    u.isoformat = t.isoformat ↔ t.offset = some 0 := by
  obtain ⟨o, ho⟩ := Option.isSome_iff_exists.mp ht
  have hinstant : t.instant = t.ticks - o := by rw [instant, ho]; rfl
  unfold toUtc at hu
  split at hu
  case isFalse => exact absurd hu (by simp)
  case isTrue hrange =>
    rw [← Option.some.inj hu]
    -- in UTC the text ends in `+00:00`
    have hutc : ∀ v : PyDateTime, v.offset = some 0 →
        v.isoformat = wallText v.ticks ++ utcText := by
      intro v hv
      rw [isoformat, hv, ← offsetText_zero]
      rfl
    have htext : t.isoformat = wallText t.ticks ++ offsetText o := by
      rw [isoformat, ho]
      rfl
    rw [hutc _ rfl, htext, ho]
    -- an equal text ends in an equal offset, which is zero then
    constructor
    · intro h
      rw [offset_eq_zero_of_suffix (t.offset_lt o ho) h.symm]
    · intro h
      have hzero : o = 0 := Option.some.inj h
      have hticks : t.instant.toNat = t.ticks := by
        rw [hinstant, hzero]
        omega
      show wallText t.instant.toNat ++ utcText = _
      rw [hticks, hzero, offsetText_zero]

end PyDateTime

theorem UtcNow.aware (now : UtcNow) : now.time.aware = true := by
  rw [PyDateTime.aware, now.utc]; rfl

/-- A day from now is representable. -/
theorem UtcNow.add_day (now : UtcNow) :
    ∃ t, now.time.add dayTicks = .ok t ∧ t.aware = true := by
  have h : now.time.add dayTicks = .ok { now.time with
      ticks := now.time.ticks + dayTicks, ticks_lt := now.in_range } := by
    rw [PyDateTime.add, dif_pos now.in_range]
  exact ⟨_, h, by rw [PyDateTime.add_aware h, now.aware]⟩

end RootSign.Python
