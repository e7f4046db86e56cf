import Mathlib.Data.List.DropRight
import Konsul.Lib.Decimal

/-!
# Instants as RFC 3339 text

An instant is a number of nanoseconds since 1970-01-01T00:00:00Z. `format` is
its text in a time zone as `time.Time.MarshalJSON` writes it, with years of four
digits and no trailing zeros in the fraction; `parse` is the strict parser of
`time.Time.UnmarshalJSON`. What is written is read back as the same instant.
-/

namespace GoLib

namespace Rfc3339

/-! ### Numbers of a fixed width -/

/-- The last `k` decimal digits of a number. -/
def padded : ℕ → ℕ → Bytes
  | 0, _ => []
  | k + 1, n => padded k (n / 10) ++ [digitByte (n % 10)]

/-- A number of exactly `k` digits, and the text behind it. -/
def readDigits (k : ℕ) (s : Bytes) : Option (ℕ × Bytes) :=
  if k ≤ s.length ∧ (s.take k).all isDigit then some (decimalValue (s.take k), s.drop k) else none

def readByte (b : UInt8) : Bytes → Option Bytes
  | c :: s => if c = b then some s else none
  | [] => none

theorem length_padded (k n : ℕ) : (padded k n).length = k := by
  induction k generalizing n with
  | zero => rfl
  | succ k ih => rw [padded, List.length_append, ih, List.length_singleton]

theorem isDigit_of_mem_padded (k n : ℕ) : ∀ b ∈ padded k n, isDigit b := by
  induction k generalizing n with
  | zero => exact fun b hb => absurd hb List.not_mem_nil
  | succ k ih =>
    intro b hb
    rcases List.mem_append.mp hb with hb | hb
    · exact ih _ b hb
    · rw [List.mem_singleton.mp hb]
      exact (digitByte_spec (Nat.mod_lt n (by decide))).1

theorem decimalValue_padded (k n : ℕ) : decimalValue (padded k n) = n % 10 ^ k := by
  induction k generalizing n with
  | zero => rw [pow_zero, Nat.mod_one]; rfl
  | succ k ih =>
    have hdigit := (digitByte_spec (Nat.mod_lt n (by decide : 10 > 0))).2
    have hrest : decimalValue (padded k (n / 10)) = n / 10 % 10 ^ k := ih (n / 10)
    have hmod : n % 10 ^ (k + 1) = n % 10 + 10 * (n / 10 % 10 ^ k) := by
      rw [pow_succ', Nat.mod_mul]
    rw [decimalValue] at hrest ⊢
    rw [padded, List.foldl_append, hrest, List.foldl_cons, List.foldl_nil, hdigit, hmod]
    omega

theorem readDigits_padded {k n : ℕ} (h : n < 10 ^ k) (s : Bytes) :
    readDigits k (padded k n ++ s) = some (n, s) := by
  have hlength := length_padded k n
  have htake : (padded k n ++ s).take k = padded k n := List.take_left' hlength
  have hdrop : (padded k n ++ s).drop k = s := List.drop_left' hlength
  have hdigits : (padded k n).all isDigit := List.all_eq_true.mpr (isDigit_of_mem_padded k n)
  have hle : k ≤ (padded k n ++ s).length := by
    rw [List.length_append]
    omega
  rw [readDigits, htake, hdrop, if_pos ⟨hle, hdigits⟩, decimalValue_padded, Nat.mod_eq_of_lt h]

@[simp] theorem readByte_cons (b : UInt8) (s : Bytes) : readByte b (b :: s) = some s := if_pos rfl

/-! ### The calendar -/

def isLeap (year : ℕ) : Bool := year % 4 = 0 ∧ (year % 100 ≠ 0 ∨ year % 400 = 0)

def yearLength (year : ℕ) : ℕ := if isLeap year then 366 else 365

def monthLengths (year : ℕ) : List ℕ :=
  [31, if isLeap year then 29 else 28, 31, 30, 31, 30, 31, 31, 30, 31, 30, 31]

/-- The days from the start of year 0 to the start of a year. -/
def daysBefore (year : ℕ) : ℕ := 365 * year + (year + 3) / 4 - (year + 99) / 100 + (year + 399) / 400

/-- The year of a day, searched for upwards. -/
def yearFrom : ℕ → ℕ → ℕ → ℕ
  | 0, year, _ => year
  | fuel + 1, year, day => if daysBefore (year + 1) ≤ day then yearFrom fuel (year + 1) day else year

def yearOf (day : ℕ) : ℕ := yearFrom 31 (day / 366) day

/-- In which of the consecutive spans a day falls, and how far. -/
def locate : List ℕ → ℕ → ℕ × ℕ
  | [], day => (0, day)
  | span :: spans, day =>
    if day < span then (0, day)
    else ((locate spans (day - span)).1 + 1, (locate spans (day - span)).2)

theorem ceil_succ {k : ℕ} (hk : 0 < k) (year : ℕ) :
    (year + 1 + (k - 1)) / k = (year + (k - 1)) / k + if year % k = 0 then 1 else 0 := by
  have hnext : year + 1 + (k - 1) = year + (k - 1) + 1 := by omega
  have hsum : year + (k - 1) + 1 = year + k := by omega
  rw [hnext, Nat.succ_div, hsum]
  simp only [Nat.dvd_iff_mod_eq_zero, Nat.add_mod_right]

theorem daysBefore_succ (year : ℕ) : daysBefore (year + 1) = daysBefore year + yearLength year := by
  have h4 := ceil_succ (by decide : 0 < 4) year
  have h100 := ceil_succ (by decide : 0 < 100) year
  have h400 := ceil_succ (by decide : 0 < 400) year
  simp only [Nat.reduceSub] at h4 h100 h400
  have hle : (year + 99) / 100 ≤ 365 * year := by omega
  have hfour : year % 100 = 0 → year % 4 = 0 := by omega
  have hhundred : year % 400 = 0 → year % 100 = 0 := by omega
  have hleap : yearLength year =
      365 + (if year % 4 = 0 then 1 else 0) + (if year % 400 = 0 then 1 else 0) -
        (if year % 100 = 0 then 1 else 0) := by
    simp only [yearLength, isLeap, decide_eq_true_eq]
    split_ifs <;> omega
  have hcount : (if year % 100 = 0 then 1 else 0) ≤ (if year % 4 = 0 then 1 else 0) := by
    split_ifs <;> omega
  rw [daysBefore, daysBefore, h4, h100, h400, hleap]
  omega

theorem sum_monthLengths (year : ℕ) : (monthLengths year).sum = yearLength year := by
  unfold monthLengths yearLength
  cases isLeap year <;> rfl

theorem yearFrom_spec (fuel year day : ℕ) (hle : daysBefore year ≤ day)
    (hfuel : day < daysBefore (year + fuel + 1)) :
    daysBefore (yearFrom fuel year day) ≤ day ∧ day < daysBefore (yearFrom fuel year day + 1) := by
  induction fuel generalizing year with
  | zero => exact ⟨hle, hfuel⟩
  | succ fuel ih =>
    rw [yearFrom]
    split_ifs with hnext
    · have hsum : year + 1 + fuel + 1 = year + (fuel + 1) + 1 := by omega
      rw [← hsum] at hfuel
      exact ih (year + 1) hnext hfuel
    · exact ⟨hle, by omega⟩

theorem yearOf_spec {day : ℕ} (h : day < daysBefore 10000) :
    yearOf day < 10000 ∧ daysBefore (yearOf day) ≤ day ∧
      day < daysBefore (yearOf day) + yearLength (yearOf day) := by
  have hday : day < 3652425 := h
  have hstart : daysBefore (day / 366) ≤ day := by
    unfold daysBefore
    omega
  have hend : day < daysBefore (day / 366 + 31 + 1) := by
    unfold daysBefore
    omega
  obtain ⟨hle, hlt⟩ := yearFrom_spec 31 (day / 366) day hstart hend
  refine ⟨?_, hle, ?_⟩
  · have hle' : daysBefore (yearOf day) < 3652425 := lt_of_le_of_lt hle hday
    unfold daysBefore at hle'
    omega
  · rw [← daysBefore_succ]
    exact hlt

theorem locate_spec (spans : List ℕ) (day : ℕ) (h : day < spans.sum) :
    (locate spans day).1 < spans.length ∧ (locate spans day).2 < spans.getD (locate spans day).1 0 ∧
      (spans.take (locate spans day).1).sum + (locate spans day).2 = day := by
  induction spans generalizing day with
  | nil => exact absurd h (Nat.not_lt_zero day)
  | cons span spans ih =>
    rw [locate]
    split_ifs with hfirst
    · exact ⟨Nat.succ_pos _, hfirst, Nat.zero_add day⟩
    · rw [List.sum_cons] at h
      obtain ⟨hlength, hspan, hsum⟩ := ih (day - span) (by omega)
      refine ⟨?_, ?_, ?_⟩
      · rw [List.length_cons]
        omega
      · rw [List.getD_cons_succ]
        exact hspan
      · rw [List.take_succ_cons, List.sum_cons]
        omega

/-! ### Date and time of day -/

structure Civil where
  year : ℕ
  month : ℕ
  day : ℕ
  hour : ℕ
  minute : ℕ
  second : ℕ
  nanosecond : ℕ
  deriving DecidableEq

def nanosPerSecond : ℕ := 1000000000
def nanosPerMinute : ℕ := 60000000000
def nanosPerHour : ℕ := 3600000000000
def nanosPerDay : ℕ := 86400000000000

/-- 1970-01-01 in nanoseconds since the start of year 0. -/
def epoch : ℕ := 719528 * nanosPerDay

namespace Civil

structure Valid (c : Civil) : Prop where
  year : c.year < 10000
  month : 1 ≤ c.month ∧ c.month ≤ 12
  day : 1 ≤ c.day ∧ c.day ≤ (monthLengths c.year).getD (c.month - 1) 0
  hour : c.hour < 24
  minute : c.minute < 60
  second : c.second < 60
  nanosecond : c.nanosecond < nanosPerSecond

instance (c : Civil) : Decidable c.Valid :=
  decidable_of_iff (c.year < 10000 ∧ (1 ≤ c.month ∧ c.month ≤ 12) ∧
      (1 ≤ c.day ∧ c.day ≤ (monthLengths c.year).getD (c.month - 1) 0) ∧ c.hour < 24 ∧
      c.minute < 60 ∧ c.second < 60 ∧ c.nanosecond < nanosPerSecond)
    ⟨fun h => ⟨h.1, h.2.1, h.2.2.1, h.2.2.2.1, h.2.2.2.2.1, h.2.2.2.2.2.1, h.2.2.2.2.2.2⟩,
      fun h => ⟨h.year, h.month, h.day, h.hour, h.minute, h.second, h.nanosecond⟩⟩

/-- The days from the start of year 0. -/
def days (c : Civil) : ℕ :=
  daysBefore c.year + ((monthLengths c.year).take (c.month - 1)).sum + (c.day - 1)

def timeOfDay (c : Civil) : ℕ :=
  c.hour * nanosPerHour + c.minute * nanosPerMinute + c.second * nanosPerSecond + c.nanosecond

/-- The local time as an instant of UTC. -/
def instant (c : Civil) : ℤ := ((c.days * nanosPerDay + c.timeOfDay : ℕ) : ℤ) - (epoch : ℤ)

/-- The date and time of day a number of nanoseconds after the start of year 0. -/
def ofNanos (n : ℕ) : Civil :=
  let day := n / nanosPerDay
  let year := yearOf day
  let p := locate (monthLengths year) (day - daysBefore year)
  let rest := n % nanosPerDay
  { year
    month := p.1 + 1
    day := p.2 + 1
    hour := rest / nanosPerHour
    minute := rest % nanosPerHour / nanosPerMinute
    second := rest % nanosPerMinute / nanosPerSecond
    nanosecond := rest % nanosPerSecond }

theorem ofNanos_spec {n : ℕ} (h : n / nanosPerDay < daysBefore 10000) :
    (ofNanos n).Valid ∧ (ofNanos n).days = n / nanosPerDay ∧
      (ofNanos n).timeOfDay = n % nanosPerDay := by
  obtain ⟨hyear, hle, hlt⟩ := yearOf_spec h
  have hwithin : n / nanosPerDay - daysBefore (yearOf (n / nanosPerDay)) <
      (monthLengths (yearOf (n / nanosPerDay))).sum := by
    rw [sum_monthLengths]
    omega
  obtain ⟨hmonth, hday, hsum⟩ := locate_spec _ _ hwithin
  have hrest : n % nanosPerDay < 86400000000000 := Nat.mod_lt n (by decide)
  refine ⟨⟨hyear, ⟨Nat.succ_pos _, hmonth⟩, ⟨Nat.succ_pos _, hday⟩, ?_, ?_, ?_, ?_⟩, ?_, ?_⟩
  · simp only [ofNanos, nanosPerHour]
    omega
  · simp only [ofNanos, nanosPerHour, nanosPerMinute]
    omega
  · simp only [ofNanos, nanosPerMinute, nanosPerSecond]
    omega
  · exact Nat.mod_lt _ (by decide)
  · simp only [days, ofNanos, Nat.add_sub_cancel]
    omega
  · simp only [timeOfDay, ofNanos, nanosPerHour, nanosPerMinute, nanosPerSecond]
    omega

end Civil

/-! ### Text -/

/-- A fraction without its trailing zeros, and none for a whole second. -/
def fraction (nanosecond : ℕ) : Bytes :=
  if nanosecond = 0 then [] else 0x2E :: (padded 9 nanosecond).rdropWhile fun b => b = 0x30

/-- The digits of a fraction; those past the ninth do not count. -/
def readFraction : Bytes → ℕ × Bytes
  | [] => (0, [])
  | b :: s =>
    if b = 0x2E ∧ s.takeWhile isDigit ≠ [] then
      (decimalValue ((s.takeWhile isDigit ++ List.replicate 9 0x30).take 9), s.dropWhile isDigit)
    else (0, b :: s)

/-- An offset from UTC in minutes. -/
def zoneText (offset : ℤ) : Bytes :=
  if offset = 0 then [0x5A]
  else (if offset < 0 then 0x2D else 0x2B) ::
    (padded 2 (offset.natAbs / 60) ++ 0x3A :: padded 2 (offset.natAbs % 60))

/-- The offset that a text ends in. -/
def readZone : Bytes → Option ℤ
  | [] => none
  | b :: s =>
    if b = 0x5A then if s = [] then some 0 else none
    else if b = 0x2B ∨ b = 0x2D then do
      let (hours, s) ← readDigits 2 s
      let s ← readByte 0x3A s
      let (minutes, s) ← readDigits 2 s
      if hours < 24 ∧ minutes < 60 ∧ s = [] then
        let offset : ℤ := (60 * hours + minutes : ℕ)
        some (if b = 0x2D then -offset else offset)
      else none
    else none

/-- `YYYY-MM-DDTHH:MM:SS` in front of a text. -/
def Civil.text (c : Civil) (s : Bytes) : Bytes :=
  padded 4 c.year ++ 0x2D :: (padded 2 c.month ++ 0x2D :: (padded 2 c.day ++ 0x54 ::
    (padded 2 c.hour ++ 0x3A :: (padded 2 c.minute ++ 0x3A :: (padded 2 c.second ++ s)))))

def readCivil (s : Bytes) : Option (Civil × Bytes) := do
  let (year, s) ← readDigits 4 s
  let s ← readByte 0x2D s
  let (month, s) ← readDigits 2 s
  let s ← readByte 0x2D s
  let (day, s) ← readDigits 2 s
  let s ← readByte 0x54 s
  let (hour, s) ← readDigits 2 s
  let s ← readByte 0x3A s
  let (minute, s) ← readDigits 2 s
  let s ← readByte 0x3A s
  let (second, s) ← readDigits 2 s
  let p := readFraction s
  some (⟨year, month, day, hour, minute, second, p.1⟩, p.2)

/-- A time zone: its offset from UTC in minutes, at each instant. -/
structure Zone where
  offset : ℤ → ℤ
  bounded : ∀ t, (offset t).natAbs < 1440

def utc : Zone := ⟨fun _ => 0, fun _ => by decide⟩

/-- `none` where the year does not have four digits. -/
def format (z : Zone) (t : ℤ) : Option Bytes :=
  let n := t + z.offset t * nanosPerMinute + epoch
  if 0 ≤ n ∧ n.toNat / nanosPerDay < daysBefore 10000 then
    let c := Civil.ofNanos n.toNat
    some (c.text (fraction c.nanosecond ++ zoneText (z.offset t)))
  else none

def parse (s : Bytes) : Option ℤ := do
  let (c, s) ← readCivil s
  let offset ← readZone s
  if c.Valid then some (c.instant - offset * nanosPerMinute) else none

/-! ### Round trip -/

theorem eq_rdropWhile_append (b : UInt8) (s : Bytes) :
    ∃ k, s = s.rdropWhile (fun c => c = b) ++ List.replicate k b := by
  induction s using List.reverseRecOn with
  | nil => exact ⟨0, rfl⟩
  | append_singleton s c ih =>
    by_cases hc : c = b
    · obtain ⟨k, hk⟩ := ih
      refine ⟨k + 1, ?_⟩
      rw [List.rdropWhile_concat_pos _ _ _ (by simpa using hc), List.replicate_succ',
        ← List.append_assoc, ← hk, hc]
    · refine ⟨0, ?_⟩
      rw [List.rdropWhile_concat_neg _ _ _ (by simpa using hc)]
      simp

theorem zoneText_head (offset : ℤ) :
    ∃ b s, zoneText offset = b :: s ∧ isDigit b = false ∧ b ≠ 0x2E := by
  unfold zoneText
  split_ifs
  · exact ⟨_, _, rfl, by decide, by decide⟩
  · exact ⟨_, _, rfl, by decide, by decide⟩
  · exact ⟨_, _, rfl, by decide, by decide⟩

theorem readFraction_fraction {nanosecond : ℕ} (h : nanosecond < 10 ^ 9) (offset : ℤ) :
    readFraction (fraction nanosecond ++ zoneText offset) = (nanosecond, zoneText offset) := by
  obtain ⟨b, s, hzone, hb, hdot⟩ := zoneText_head offset
  unfold fraction
  by_cases hzero : nanosecond = 0
  · rw [if_pos hzero, List.nil_append, hzone, readFraction, if_neg fun h => hdot h.1, hzero]
  · rw [if_neg hzero, List.cons_append, readFraction]
    obtain ⟨k, hk⟩ := eq_rdropWhile_append 0x30 (padded 9 nanosecond)
    have hvalue := decimalValue_padded 9 nanosecond
    rw [Nat.mod_eq_of_lt h] at hvalue
    have hlength := congrArg List.length hk
    rw [length_padded, List.length_append, List.length_replicate] at hlength
    generalize hds : (padded 9 nanosecond).rdropWhile (fun c => decide (c = 0x30)) = ds at hk hlength ⊢
    have hdigits : ∀ c ∈ ds, isDigit c := by
      intro c hc
      exact isDigit_of_mem_padded 9 nanosecond c (by rw [hk]; exact List.mem_append_left _ hc)
    have htake : (ds ++ zoneText offset).takeWhile isDigit = ds := by
      rw [List.takeWhile_append_of_pos hdigits, hzone, List.takeWhile_cons_of_neg (by simp [hb]),
        List.append_nil]
    have hdrop : (ds ++ zoneText offset).dropWhile isDigit = zoneText offset := by
      rw [List.dropWhile_append_of_pos hdigits, hzone, List.dropWhile_cons_of_neg (by simp [hb])]
    have hne : ds ≠ [] := by
      intro hnil
      -- nine zeros would be the fraction of a whole second
      rw [hnil, List.nil_append] at hk
      have hall : decimalValue (List.replicate 9 0x30) = 0 := by decide
      rw [hnil, List.length_nil, Nat.zero_add] at hlength
      rw [hk, ← hlength, hall] at hvalue
      exact hzero hvalue.symm
    have hnine : (ds ++ List.replicate 9 0x30).take 9 = padded 9 nanosecond := by
      rw [hk, List.take_append, List.take_of_length_le (by omega), List.take_replicate]
      congr 2
      omega
    rw [htake, hdrop, if_pos ⟨rfl, hne⟩, hnine, hvalue]

theorem readZone_zoneText {offset : ℤ} (h : offset.natAbs < 1440) :
    readZone (zoneText offset) = some offset := by
  unfold zoneText
  by_cases hzero : offset = 0
  · rw [if_pos hzero, hzero]
    rfl
  · have hhours : offset.natAbs / 60 < 10 ^ 2 := by omega
    have hminutes : offset.natAbs % 60 < 10 ^ 2 := by omega
    have hlast := readDigits_padded hminutes []
    rw [List.append_nil] at hlast
    rw [if_neg hzero, readZone]
    have habs : 60 * (offset.natAbs / 60) + offset.natAbs % 60 = offset.natAbs :=
      Nat.div_add_mod offset.natAbs 60
    have hlimits : offset.natAbs / 60 < 24 ∧ offset.natAbs % 60 < 60 := by omega
    by_cases hneg : offset < 0
    · have hvalue : -(offset.natAbs : ℤ) = offset := by omega
      simp only [if_pos hneg, readDigits_padded hhours, hlast, readByte_cons, Option.bind_eq_bind,
        Option.bind_some, hlimits, habs, hvalue]
      rfl
    · have hvalue : (offset.natAbs : ℤ) = offset := by omega
      simp only [if_neg hneg, readDigits_padded hhours, hlast, readByte_cons, Option.bind_eq_bind,
        Option.bind_some, hlimits, habs, hvalue]
      rfl

theorem getD_monthLengths_le (year month : ℕ) : (monthLengths year).getD month 0 ≤ 31 := by
  have hall : ∀ n ∈ monthLengths year, n ≤ 31 := by
    unfold monthLengths
    cases isLeap year <;> decide
  rw [List.getD_eq_getElem?_getD]
  cases hm : (monthLengths year)[month]? with
  | none => exact Nat.zero_le _
  | some n => exact hall n (List.mem_of_getElem? hm)

theorem readCivil_text {c : Civil} (h : c.Valid) (offset : ℤ) :
    readCivil (c.text (fraction c.nanosecond ++ zoneText offset)) = some (c, zoneText offset) := by
  obtain ⟨hyear, hmonth, hday, hhour, hminute, hsecond, hnano⟩ := h
  have hlast := getD_monthLengths_le c.year (c.month - 1)
  have hyear : c.year < 10 ^ 4 := by omega
  have hmonth : c.month < 10 ^ 2 := by omega
  have hday : c.day < 10 ^ 2 := by omega
  have hhour : c.hour < 10 ^ 2 := by omega
  have hminute : c.minute < 10 ^ 2 := by omega
  have hsecond : c.second < 10 ^ 2 := by omega
  simp only [readCivil, Civil.text, readDigits_padded hyear, readDigits_padded hmonth,
    readDigits_padded hday, readDigits_padded hhour, readDigits_padded hminute,
    readDigits_padded hsecond, readByte_cons, Option.bind_eq_bind, Option.bind_some,
    readFraction_fraction hnano]

/-- The text of an instant is read back as the instant. -/
theorem parse_format {z : Zone} {t : ℤ} {s : Bytes} (h : format z t = some s) :
    parse s = some t := by
  unfold format at h
  dsimp only at h
  split_ifs at h with hrange
  obtain ⟨hvalid, hdays, htime⟩ := Civil.ofNanos_spec hrange.2
  cases h
  rw [parse, readCivil_text hvalid]
  simp only [Option.bind_eq_bind, Option.bind_some, readZone_zoneText (z.bounded t), if_pos hvalid]
  have hnanos := Nat.div_add_mod (t + z.offset t * nanosPerMinute + epoch).toNat nanosPerDay
  have hinstant : (Civil.ofNanos (t + z.offset t * nanosPerMinute + epoch).toNat).instant =
      t + z.offset t * nanosPerMinute := by
    rw [Civil.instant, hdays, htime, Nat.mul_comm, hnanos, Int.toNat_of_nonneg hrange.1]
    omega
  rw [hinstant]
  congr 1
  omega

theorem ascii_of_format {z : Zone} {t : ℤ} {s : Bytes} (h : format z t = some s) :
    ∀ b ∈ s, b < 0x80 := by
  have hdigits (k n : ℕ) : ∀ b ∈ padded k n, b < 0x80 := fun b hb =>
    isDigit_lt (isDigit_of_mem_padded k n b hb)
  have hfraction (n : ℕ) : ∀ b ∈ fraction n, b < 0x80 := by
    intro b hb
    unfold fraction at hb
    split_ifs at hb
    · cases hb
    · rcases List.mem_cons.mp hb with rfl | hb
      · decide
      · exact hdigits 9 n b ((List.rdropWhile_prefix _ _).subset hb)
  have hzone (offset : ℤ) : ∀ b ∈ zoneText offset, b < 0x80 := by
    intro b hb
    unfold zoneText at hb
    split_ifs at hb
    · rw [List.mem_singleton.mp hb]
      decide
    all_goals
      simp only [List.mem_cons, List.mem_append] at hb
      rcases hb with rfl | hb | rfl | hb
      · decide
      · exact hdigits _ _ b hb
      · decide
      · exact hdigits _ _ b hb
  unfold format at h
  dsimp only at h
  split_ifs at h
  cases h
  intro b hb
  simp only [Civil.text, List.mem_cons, List.mem_append] at hb
  rcases hb with hb | rfl | hb | rfl | hb | rfl | hb | rfl | hb | rfl | hb | hb | hb
  case inl => exact hdigits _ _ b hb
  all_goals first | decide | exact hdigits _ _ b hb | exact hfraction _ b hb | exact hzone _ b hb

example : format utc 1700000000123000000 = some "2023-11-14T22:13:20.123Z".toUTF8.data.toList := by decide

end Rfc3339

end GoLib
