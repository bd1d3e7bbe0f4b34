/-
The credit estimate from the reported balance and the processor utilisation
since: `getCredit` and `getMetricStatsMultiple` of src/src/InstanceUtility.py.

Times are written by one function and read back by patterns of the other. The
patterns expect the offset as `+00:00`, `strftime` writes it as `+0000`, and a
time that no pattern matches is skipped.

What the two calls of the metrics service answer is given: the datapoints of
the balance as the command line tool prints them, those of the utilisation as
time-zone aware values in UTC.
-/

import AutoBurst.Controller.Instance
import Mathlib.Algebra.GroupWithZero.Nat

namespace AutoBurst.Controller

/-! ### Times -/

def isLeap (year : Nat) : Bool :=
  year % 4 == 0 && (year % 100 != 0 || year % 400 == 0)

def daysInMonth (year month : Nat) : Nat :=
  if month = 2 then if isLeap year then 29 else 28
  else if month = 4 ∨ month = 6 ∨ month = 9 ∨ month = 11 then 30
  else 31

structure DateTime where
  year : Nat
  month : Nat
  day : Nat
  hour : Nat
  minute : Nat
  second : Nat
  microsecond : Nat
  inCalendar : (1 ≤ year ∧ year ≤ 9999) ∧ (1 ≤ month ∧ month ≤ 12) ∧
    1 ≤ day ∧ day ≤ daysInMonth year month
  inDay : hour < 24 ∧ minute < 60 ∧ second < 60 ∧ microsecond < 1000000
deriving DecidableEq

/-- Days since the first day of the year 1, counted from one. -/
def DateTime.ordinal (time : DateTime) : Nat :=
  let years := time.year - 1
  years * 365 + years / 4 - years / 100 + years / 400 +
    ((List.range (time.month - 1)).map fun month => daysInMonth time.year (month + 1)).sum +
    time.day

def DateTime.seconds (time : DateTime) : Rat :=
  (time.ordinal * 86400 + time.hour * 3600 + time.minute * 60 + time.second : Nat) +
    (time.microsecond : Rat) / 1000000

/-- `(later - earlier).total_seconds() / 60` -/
def minutesBetween (earlier later : DateTime) : Rat :=
  (later.seconds - earlier.seconds) / 60

/-! ### Writing -/

def twoDigits (number : Nat) : List Char :=
  [(number / 10 % 10).digitChar, (number % 10).digitChar]

def fourDigits (number : Nat) : List Char :=
  twoDigits (number / 100) ++ twoDigits number

def DateTime.text (time : DateTime) : List Char :=
  fourDigits time.year ++ '-' :: (twoDigits time.month ++ '-' :: (twoDigits time.day ++
    'T' :: (twoDigits time.hour ++ ':' :: (twoDigits time.minute ++ ':' :: twoDigits time.second))))

/-- `%z` of a time in UTC is `+0000`. -/
def strftime (time : DateTime) : String :=
  String.ofList (time.text ++ ['+', '0', '0', '0', '0'])

def cliTimestamp (time : DateTime) : String :=
  String.ofList (time.text ++ ['+', '0', '0', ':', '0', '0'])

/-! ### Patterns -/

inductive PatternItem
  | digit
  | char (char : Char)

def matchItems : List PatternItem → List Char → Option (List Char)
  | [], rest => some rest
  | _ :: _, [] => none
  | .digit :: items, char :: rest => if char.isDigit then matchItems items rest else none
  | .char expected :: items, char :: rest =>
      if char = expected then matchItems items rest else none

/-- `re.match(pattern, text)`: `$` is the end or a newline before it. -/
def reMatch (pattern : List PatternItem) (text : String) : Bool :=
  match matchItems pattern text.toList with
  | some [] => true
  | some ['\n'] => true
  | _ => false

/-- `\d{4}-\d{2}-\d{2}T\d{2}:\d{2}:\d{2}` -/
def datePattern : List PatternItem :=
  [.digit, .digit, .digit, .digit, .char '-', .digit, .digit, .char '-', .digit, .digit, .char 'T',
    .digit, .digit, .char ':', .digit, .digit, .char ':', .digit, .digit]

/-- `\+\d{2}\:\d{2}` after the date. -/
def pattern1 : List PatternItem :=
  datePattern ++ [.char '+', .digit, .digit, .char ':', .digit, .digit]

/-- `\.\d{2}` after the date. -/
def pattern2 : List PatternItem :=
  datePattern ++ [.char '.', .digit, .digit]

/-! ### Reading -/

def takeDigits : Nat → Nat → List Char → Option (Nat × List Char)
  | 0, number, rest => some (number, rest)
  | _ + 1, _number, [] => none
  | count + 1, number, char :: rest =>
      if char.isDigit then takeDigits count (number * 10 + (char.toNat - '0'.toNat)) rest else none

def takeChar (expected : Char) : List Char → Option (List Char)
  | [] => none
  | char :: rest => if char = expected then some rest else none

/-- `strptime(text, '%Y-%m-%dT%H:%M:%S')` of a text with all its digits. -/
def strptime (text : List Char) : Option DateTime := do
  let (year, rest) ← takeDigits 4 0 text
  let rest ← takeChar '-' rest
  let (month, rest) ← takeDigits 2 0 rest
  let rest ← takeChar '-' rest
  let (day, rest) ← takeDigits 2 0 rest
  let rest ← takeChar 'T' rest
  let (hour, rest) ← takeDigits 2 0 rest
  let rest ← takeChar ':' rest
  let (minute, rest) ← takeDigits 2 0 rest
  let rest ← takeChar ':' rest
  let (second, rest) ← takeDigits 2 0 rest
  if rest ≠ [] then none
  else if inCalendar : (1 ≤ year ∧ year ≤ 9999) ∧ (1 ≤ month ∧ month ≤ 12) ∧
      1 ≤ day ∧ day ≤ daysInMonth year month then
    if inDay : hour < 24 ∧ minute < 60 ∧ second < 60 ∧ 0 < 1000000 then
      some ⟨year, month, day, hour, minute, second, 0, inCalendar, inDay⟩
    else none
  else none

/-- What the two branches make of a text: nothing where no pattern matches; the
outer `none` is an exception of `strptime`. -/
def readTime (text : String) : Option (Option DateTime) :=
  if reMatch pattern1 text then
    (strptime (text.toList.takeWhile (· ≠ '+'))).map some
  else if reMatch pattern2 text then
    (strptime (text.toList.takeWhile (· ≠ '.'))).map some
  else some none

/-! ### The estimate -/

structure CpuDatapoint where
  timestamp : DateTime
  value : Rat

def getMetricStatsMultiple (datapoints : List CpuDatapoint) : List Rat × List String :=
  let sorted := datapoints.insertionSort
    (fun a b => a.timestamp.seconds ≤ b.timestamp.seconds)
  (sorted.map CpuDatapoint.value, sorted.map fun point => strftime point.timestamp)

inductive CreditTime
  | unreported
  | text (timestamp : String)
  | time (timestamp : DateTime)

def creditLoop (vcpu baseline : Rat) (values : List Rat) :
    List DateTime → Nat → Rat → CreditTime → Option (Rat × CreditTime)
  | [], _i, credit, current => some (credit, current)
  | ts :: rest, i, credit, .time current =>
      (values[i]?).bind fun value =>
        creditLoop vcpu baseline values rest (i + 1)
          (max 0 (credit + vcpu * minutesBetween current ts * (baseline - value / 100))) (.time ts)
  | _ :: _, _i, _credit, .text _timestamp => none
  | _ :: _, _i, _credit, .unreported => none

def readBalanceTime (text : String) : Option CreditTime :=
  (readTime text).map fun time =>
    match time with
    | some time => .time time
    | none => .text text

def getCredit (vcpu baseline : Rat) (balance : List Datapoint) (cpu : List CpuDatapoint) :
    Option (Rat × CreditTime) :=
  let latest := latestDatapoint balance
  if latest.1 = -1 then some (0, .unreported)
  else
    let metrics := getMetricStatsMultiple cpu
    (metrics.2.mapM readTime).bind fun times =>
      (latest.2.bind readBalanceTime).bind fun current =>
        creditLoop vcpu baseline metrics.1 (times.filterMap fun time => time) 0 latest.1 current

/-! ### Texts of times -/

section Texts

variable {number : Nat} {rest : List Char}

private theorem digit_isDigit (number : Nat) : (number % 10).digitChar.isDigit = true := by
  rw [Nat.isDigit_digitChar]
  exact decide_eq_true (Nat.mod_lt _ (by decide))

private theorem digit_value (number : Nat) :
    (number % 10).digitChar.toNat - '0'.toNat = number % 10 :=
  Nat.toNat_digitChar_sub_48_of_lt_ten (Nat.mod_lt _ (by decide))

theorem takeDigits_twoDigits (count earlier number : Nat) (rest : List Char) :
    takeDigits (count + 2) earlier (twoDigits number ++ rest) =
      takeDigits count (earlier * 100 + number % 100) rest := by
  have value : (earlier * 10 + number / 10 % 10) * 10 + number % 10 =
      earlier * 100 + number % 100 := by omega
  simp only [twoDigits, List.cons_append, List.nil_append, takeDigits, digit_isDigit, if_true,
    digit_value, value]

theorem takeDigits_two (small : number < 100) :
    takeDigits 2 0 (twoDigits number ++ rest) = some (number, rest) := by
  rw [takeDigits_twoDigits 0]
  simp only [takeDigits, Nat.zero_mul, Nat.zero_add, Nat.mod_eq_of_lt small]

theorem takeDigits_four (small : number < 10000) :
    takeDigits 4 0 (fourDigits number ++ rest) = some (number, rest) := by
  have value : (0 * 100 + number / 100 % 100) * 100 + number % 100 = number := by omega
  unfold fourDigits
  rw [List.append_assoc, takeDigits_twoDigits 2, takeDigits_twoDigits 0, value]
  rfl

theorem takeChar_self (char : Char) : takeChar char (char :: rest) = some rest :=
  if_pos rfl

theorem matchItems_append (first second : List PatternItem) (text : List Char) :
    matchItems (first ++ second) text = (matchItems first text).bind (matchItems second) := by
  induction first generalizing text with
  | nil => rfl
  | cons item items ih =>
      cases text with
      | nil => cases item <;> rfl
      | cons char rest =>
          cases item with
          | digit =>
              simp only [List.cons_append, matchItems]
              split
              · exact ih rest
              · rfl
          | char expected =>
              simp only [List.cons_append, matchItems]
              split
              · exact ih rest
              · rfl

theorem matchItems_char (char : Char) (items : List PatternItem) :
    matchItems (.char char :: items) (char :: rest) = matchItems items rest :=
  if_pos rfl

theorem matchItems_twoDigits (number : Nat) (items : List PatternItem) :
    matchItems (.digit :: .digit :: items) (twoDigits number ++ rest) = matchItems items rest :=
  (if_pos (digit_isDigit (number / 10))).trans (if_pos (digit_isDigit number))

theorem matchItems_date (time : DateTime) (rest : List Char) :
    matchItems datePattern (time.text ++ rest) = some rest := by
  unfold datePattern DateTime.text fourDigits
  simp only [List.append_assoc, List.cons_append]
  rw [matchItems_twoDigits, matchItems_twoDigits, matchItems_char, matchItems_twoDigits,
    matchItems_char, matchItems_twoDigits, matchItems_char, matchItems_twoDigits, matchItems_char,
    matchItems_twoDigits, matchItems_char, matchItems_twoDigits, matchItems]

end Texts

def DateTime.whole (time : DateTime) : DateTime :=
  { time with
    microsecond := 0
    inDay := ⟨time.inDay.1, time.inDay.2.1, time.inDay.2.2.1, by decide⟩ }

theorem daysInMonth_lt (year month : Nat) : daysInMonth year month < 100 := by
  unfold daysInMonth
  split
  · split <;> decide
  · split <;> decide

theorem strptime_text (time : DateTime) : strptime time.text = some time.whole := by
  obtain ⟨year, month, day, hour, minute, second, microsecond, inCalendar, inDay⟩ := time
  have days := daysInMonth_lt year month
  have last : takeDigits 2 0 (twoDigits second) = some (second, []) := by
    rw [← List.append_nil (twoDigits second)]
    exact takeDigits_two (by omega)
  unfold strptime DateTime.text
  dsimp only [Option.bind_eq_bind]
  rw [takeDigits_four (by omega), Option.bind_some]
  dsimp only
  rw [takeChar_self, Option.bind_some, takeDigits_two (by omega), Option.bind_some]
  dsimp only
  rw [takeChar_self, Option.bind_some, takeDigits_two (by omega), Option.bind_some]
  dsimp only
  rw [takeChar_self, Option.bind_some, takeDigits_two (by omega), Option.bind_some]
  dsimp only
  rw [takeChar_self, Option.bind_some, takeDigits_two (by omega), Option.bind_some]
  dsimp only
  rw [takeChar_self, Option.bind_some, last, Option.bind_some]
  dsimp only
  rw [if_neg (fun more => more rfl), dif_pos inCalendar,
    dif_pos ⟨inDay.1, inDay.2.1, inDay.2.2.1, by decide⟩]
  rfl

private theorem digit_ne_plus (number : Nat) : (number % 10).digitChar ≠ '+' := by
  intro same
  have digit := digit_isDigit number
  rw [same] at digit
  cases digit

theorem plus_not_mem_text (time : DateTime) : ∀ char ∈ time.text, char ≠ '+' := by
  intro char member
  simp only [DateTime.text, fourDigits, twoDigits, List.cons_append, List.nil_append,
    List.mem_cons, List.not_mem_nil, or_false] at member
  rcases member with rfl | rfl | rfl | rfl | rfl | rfl | rfl | rfl | rfl | rfl | rfl | rfl | rfl |
    rfl | rfl | rfl | rfl | rfl | rfl
  all_goals first
    | exact digit_ne_plus _
    | decide

/-- The form of the command line tool is read back. -/
theorem readTime_cliTimestamp (time : DateTime) :
    readTime (cliTimestamp time) = some (some time.whole) := by
  have chars : (cliTimestamp time).toList = time.text ++ ['+', '0', '0', ':', '0', '0'] :=
    String.toList_ofList
  have matched : reMatch pattern1 (cliTimestamp time) = true := by
    unfold reMatch pattern1
    rw [chars, matchItems_append, matchItems_date, Option.bind_some]
    rfl
  have date : (cliTimestamp time).toList.takeWhile (· ≠ '+') = time.text := by
    rw [chars, List.takeWhile_append_of_pos fun char member =>
      decide_eq_true (plus_not_mem_text time char member)]
    exact List.append_nil _
  unfold readTime
  rw [if_pos matched, date, strptime_text]
  rfl

/-- The form of `strftime` is not: there is no colon in its offset. -/
theorem readTime_strftime (time : DateTime) : readTime (strftime time) = some none := by
  have chars : (strftime time).toList = time.text ++ ['+', '0', '0', '0', '0'] :=
    String.toList_ofList
  have unmatched1 : reMatch pattern1 (strftime time) = false := by
    unfold reMatch pattern1
    rw [chars, matchItems_append, matchItems_date, Option.bind_some]
    rfl
  have unmatched2 : reMatch pattern2 (strftime time) = false := by
    unfold reMatch pattern2
    rw [chars, matchItems_append, matchItems_date, Option.bind_some]
    rfl
  unfold readTime
  rw [unmatched1, unmatched2]
  rfl

/-! ### What the estimate amounts to -/

def foldedCredit (vcpu baseline credit : Rat) (reported : DateTime) (cpu : List CpuDatapoint) :
    Rat :=
  (cpu.foldl (fun (current : Rat × DateTime) point =>
    (max 0 (current.1 + vcpu * minutesBetween current.2 point.timestamp *
      (baseline - point.value / 100)), point.timestamp)) (credit, reported)).1

def Recognised (text : String) : Prop :=
  reMatch pattern1 text = true ∨ reMatch pattern2 text = true

section Estimate

variable {vcpu baseline credit : Rat} {reported : DateTime} {balance : List Datapoint}

theorem not_recognised_strftime (time : DateTime) : ¬Recognised (strftime time) := by
  intro recognised
  have unread := readTime_strftime time
  unfold readTime at unread
  split at unread
  · obtain ⟨read, _parsed, impossible⟩ := Option.map_eq_some_iff.mp unread
    cases impossible
  · rename_i unmatched
    rw [if_pos (recognised.resolve_left unmatched)] at unread
    obtain ⟨read, _parsed, impossible⟩ := Option.map_eq_some_iff.mp unread
    cases impossible

private theorem mapM_readTime (times : List DateTime) :
    (times.map strftime).mapM readTime = some (times.map fun _time => none) := by
  induction times with
  | nil => rfl
  | cons time rest ih =>
      rw [List.map_cons, List.mapM_cons, readTime_strftime, ih]
      rfl

/-- Every datapoint is skipped and the reported balance is returned. -/
theorem getCredit_eq (nonneg : 0 ≤ credit)
    (latest : latestDatapoint balance = (credit, some (cliTimestamp reported)))
    (cpu : List CpuDatapoint) :
    getCredit vcpu baseline balance cpu = some (credit, .time reported.whole) := by
  have present : credit ≠ -1 := by
    intro absent
    rw [absent] at nonneg
    exact absurd nonneg (by decide)
  have texts : (getMetricStatsMultiple cpu).2 =
      ((cpu.insertionSort fun a b => a.timestamp.seconds ≤ b.timestamp.seconds).map
        CpuDatapoint.timestamp).map strftime := by
    rw [List.map_map]
    rfl
  have skipped : ∀ times : List DateTime,
      (times.map fun _time => (none : Option DateTime)).filterMap (fun time => time) = [] := by
    intro times
    rw [List.filterMap_eq_nil_iff]
    intro time member
    obtain ⟨_time, _there, rfl⟩ := List.mem_map.mp member
    rfl
  unfold getCredit
  simp only [latest]
  rw [if_neg present, texts, mapM_readTime, Option.bind_some, skipped, Option.bind_some]
  unfold readBalanceTime
  rw [readTime_cliTimestamp]
  rfl

end Estimate

/-- For a reported balance the estimate takes in all the datapoints, their times
all being recognised, only if there are none. -/
theorem getCredit_folds_iff (vcpu baseline credit : Rat) (reported : DateTime)
    (balance : List Datapoint) (cpu : List CpuDatapoint) (nonneg : 0 ≤ credit)
    (latest : latestDatapoint balance = (credit, some (cliTimestamp reported))) :
    ((∃ until_, getCredit vcpu baseline balance cpu =
        some (foldedCredit vcpu baseline credit reported cpu, until_)) ∧
      ∀ text ∈ (getMetricStatsMultiple cpu).2, Recognised text) ↔ cpu = [] := by
  constructor
  · rintro ⟨_folded, recognised⟩
    by_contra nonempty
    obtain ⟨point, member⟩ := List.exists_mem_of_ne_nil cpu nonempty
    have written : strftime point.timestamp ∈ (getMetricStatsMultiple cpu).2 :=
      List.mem_map.mpr ⟨point, (List.mem_insertionSort _).mpr member, rfl⟩
    exact not_recognised_strftime point.timestamp (recognised _ written)
  · rintro rfl
    refine ⟨⟨_, getCredit_eq nonneg latest []⟩, ?_⟩
    intro text member
    exact absurd member List.not_mem_nil

/-! ### One datapoint -/

def sampleReported : DateTime := ⟨2024, 5, 1, 12, 0, 0, 0, by decide, by decide⟩

def sampleCpu : List CpuDatapoint := [⟨⟨2024, 5, 1, 12, 1, 0, 0, by decide, by decide⟩, 50⟩]

def sampleBalance : List Datapoint := [⟨cliTimestamp sampleReported, 10⟩]

private theorem sampleBalance_latest :
    latestDatapoint sampleBalance = (10, some (cliTimestamp sampleReported)) := rfl

theorem getCredit_folds_iff_sample :
    (∃ until_, getCredit 2 (3 / 10) sampleBalance [] = some (10, until_)) ∧
      ¬((∃ until_, getCredit 2 (3 / 10) sampleBalance sampleCpu =
          some (foldedCredit 2 (3 / 10) 10 sampleReported sampleCpu, until_)) ∧
        ∀ text ∈ (getMetricStatsMultiple sampleCpu).2, Recognised text) := by
  have none_ := getCredit_folds_iff 2 (3 / 10) 10 sampleReported sampleBalance [] (by decide)
    sampleBalance_latest
  have one := getCredit_folds_iff 2 (3 / 10) 10 sampleReported sampleBalance sampleCpu (by decide)
    sampleBalance_latest
  exact ⟨(none_.mpr rfl).1, fun both => nomatch one.mp both⟩

/-- A minute at half the capacity costs two fifths of a credit more than two
processors earn, but the ten credits are returned as they are. -/
theorem getCredit_skips :
    foldedCredit 2 (3 / 10) 10 sampleReported sampleCpu = 48 / 5 ∧
      ∀ until_, getCredit 2 (3 / 10) sampleBalance sampleCpu ≠ some (48 / 5, until_) := by
  constructor
  · decide +kernel
  · intro until_ returned
    rw [getCredit_eq (by decide) sampleBalance_latest] at returned
    have credit := (Prod.mk.inj (Option.some.inj returned)).1
    exact absurd credit (by decide +kernel)

end AutoBurst.Controller
