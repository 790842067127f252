import SortingLine.Library.CInt
import SortingLine.Library.Fields
import SortingLine.Rtc.Toy

/-!
# Dates survive the clock

A date has two forms as a `struct tm`: that of C, with the years from 1900 on and the months from 0
on, and that of the calendar.  Both conversions to a word first turn to the form of the calendar
(`tmToToyDatetime_eq`), and both conversions back end in the form of C.
-/

namespace SortingLine.Rtc

/-- A date of the clock, with the time of the day. -/
structure Date where
  year : ℕ
  mon : ℕ
  mday : ℕ
  hour : ℕ
  min : ℕ
  sec : ℕ
  year_mem : 1900 ≤ year ∧ year ≤ 3799
  mon_mem : 1 ≤ mon ∧ mon ≤ 12
  mday_mem : 1 ≤ mday ∧ mday ≤ 31
  hour_le : hour ≤ 23
  min_le : min ≤ 59
  sec_le : sec ≤ 59

/-- A `struct tm` has the date, with the years and the months counted from some first ones. -/
structure Tm.IsForm (year mon : ℤ) (d : Date) (tm : Tm) : Prop where
  year : tm.tmYear.toInt = d.year - year
  mon : tm.tmMon.toInt = d.mon - mon
  mday : tm.tmMday.toInt = d.mday
  hour : tm.tmHour.toInt = d.hour
  min : tm.tmMin.toInt = d.min
  sec : tm.tmSec.toInt = d.sec

/-- The date in the form of C. -/
abbrev Tm.CForm (d : Date) (tm : Tm) : Prop := tm.IsForm 1900 1 d

/-- The date in the form of the calendar. -/
abbrev Tm.CalendarForm (d : Date) (tm : Tm) : Prop := tm.IsForm 0 0 d

/-- Other fields from another one. -/
def Tm.withRest (tm dt : Tm) : Tm :=
  { tm with tmWday := dt.tmWday, tmYday := dt.tmYday, tmIsdst := dt.tmIsdst }

variable {d : Date} {tm dt : Tm}

/-- The numbers of a date have few bits, but for the year. -/
theorem Date.lt_two_pow (d : Date) :
    d.sec < 2 ^ 6 ∧ d.min < 2 ^ 6 ∧ d.hour < 2 ^ 5 ∧ d.mday < 2 ^ 5 ∧ d.mon < 2 ^ 4 := by
  have hsec := d.sec_le
  have hmin := d.min_le
  have hhour := d.hour_le
  have hmday := d.mday_mem
  have hmon := d.mon_mem
  omega

/-- A form of a date has nothing else in the time fields. -/
theorem Tm.IsForm.eq_withRest {year mon : ℤ} {tm' : Tm} (h : tm.IsForm year mon d)
    (h' : tm'.IsForm year mon d) : tm = tm'.withRest tm := by
  obtain ⟨hyear, hmon, hmday, hhour, hmin, hsec⟩ := h
  obtain ⟨hyear', hmon', hmday', hhour', hmin', hsec'⟩ := h'
  cases tm
  simp only [withRest, Tm.mk.injEq, and_true]
  exact ⟨Int32.toInt_inj.mp (hsec.trans hsec'.symm), Int32.toInt_inj.mp (hmin.trans hmin'.symm),
    Int32.toInt_inj.mp (hhour.trans hhour'.symm), Int32.toInt_inj.mp (hmday.trans hmday'.symm),
    Int32.toInt_inj.mp (hmon.trans hmon'.symm), Int32.toInt_inj.mp (hyear.trans hyear'.symm)⟩

/-- The forms are those of the numbers in range. -/
theorem exists_isForm_iff {year mon : ℤ} : (∃ d, tm.IsForm year mon d) ↔
    (1900 ≤ tm.tmYear.toInt + year ∧ tm.tmYear.toInt + year ≤ 3799) ∧
      (1 ≤ tm.tmMon.toInt + mon ∧ tm.tmMon.toInt + mon ≤ 12) ∧
      (1 ≤ tm.tmMday.toInt ∧ tm.tmMday.toInt ≤ 31) ∧
      (0 ≤ tm.tmHour.toInt ∧ tm.tmHour.toInt ≤ 23) ∧
      (0 ≤ tm.tmMin.toInt ∧ tm.tmMin.toInt ≤ 59) ∧ 0 ≤ tm.tmSec.toInt ∧ tm.tmSec.toInt ≤ 59 := by
  constructor
  · rintro ⟨d, hyear, hmon, hmday, hhour, hmin, hsec⟩
    obtain ⟨year, mon, mday, hour, min, sec, _, _, _, _, _, _⟩ := d
    dsimp only at *
    omega
  · rintro ⟨⟨hyear, hyear'⟩, ⟨hmon, hmon'⟩, ⟨hmday, hmday'⟩, ⟨hhour, hhour'⟩, ⟨hmin, hmin'⟩, hsec,
      hsec'⟩
    refine ⟨⟨(tm.tmYear.toInt + year).toNat, (tm.tmMon.toInt + mon).toNat, tm.tmMday.toInt.toNat,
      tm.tmHour.toInt.toNat, tm.tmMin.toInt.toNat, tm.tmSec.toInt.toNat, by omega, by omega,
      by omega, by omega, by omega, by omega⟩, ?_⟩
    constructor
    all_goals
      dsimp only
      omega

/-! ### The two forms -/

/-- The year tells the forms apart. -/
theorem Tm.IsForm.le_year_iff {year mon : ℤ} (h : tm.IsForm year mon d) :
    1900 ≤ tm.tmYear ↔ 1900 + year ≤ d.year := by
  have hlit : (1900 : Int32).toInt = 1900 := rfl
  rw [Int32.le_iff_toInt_le, hlit, h.year]
  omega

theorem Tm.CForm.not_le_year (h : tm.CForm d) : ¬ 1900 ≤ tm.tmYear := by
  have hle := d.year_mem.2
  rw [h.le_year_iff]
  omega

theorem Tm.CalendarForm.le_year (h : tm.CalendarForm d) : 1900 ≤ tm.tmYear := by
  have hle := d.year_mem.1
  rw [h.le_year_iff]
  omega

theorem normalizeTm_true_of_cForm (h : tm.CForm d) : normalizeTm tm true = tm := by
  simp only [normalizeTm, if_true, if_neg h.not_le_year]

theorem normalizeTm_false_of_calendarForm (h : tm.CalendarForm d) : normalizeTm tm false = tm := by
  have hlt : ¬ tm.tmYear < 1900 := Int32.not_lt.mpr h.le_year
  simp only [normalizeTm, Bool.false_eq_true, if_false, if_neg hlt]

theorem cForm_normalizeTm (h : tm.CalendarForm d) : (normalizeTm tm true).CForm d := by
  have hyear := d.year_mem
  have hmon := d.mon_mem
  have hsub := toInt_sub_of_inInt (v := 1900) (b := 1900) h.year rfl ⟨by omega, by omega⟩
  have hsubMon := toInt_sub_of_inInt (v := 1) (b := 1) h.mon rfl ⟨by omega, by omega⟩
  simp only [normalizeTm, if_true, if_pos h.le_year]
  exact { h with
    year := by rw [hsub, Int.sub_zero]
    mon := by rw [hsubMon, Int.sub_zero] }

theorem calendarForm_normalizeTm (h : tm.CForm d) : (normalizeTm tm false).CalendarForm d := by
  have hyear := d.year_mem
  have hmon := d.mon_mem
  have hadd := toInt_add_of_inInt (v := 1900) (b := 1900) h.year rfl ⟨by omega, by omega⟩
  have haddMon := toInt_add_of_inInt (v := 1) (b := 1) h.mon rfl ⟨by omega, by omega⟩
  simp only [normalizeTm, Bool.false_eq_true, if_false, if_pos (Int32.not_le.mp h.not_le_year)]
  exact { h with
    year := by rw [hadd, Int.sub_add_cancel, Int.sub_zero]
    mon := by rw [haddMon, Int.sub_add_cancel, Int.sub_zero] }

/-! ### Words -/

/-- The lower word of the clock. -/
def toyLayout : WordLayout 32 where
  fields := [⟨4, 6⟩, ⟨10, 6⟩, ⟨16, 5⟩, ⟨21, 5⟩, ⟨26, 6⟩]
  disjoint := by decide
  le := by decide

/-- The registers of the alarms. -/
def toymatchLayout : WordLayout 32 where
  fields := [⟨0, 6⟩, ⟨6, 6⟩, ⟨12, 5⟩, ⟨17, 5⟩, ⟨22, 4⟩, ⟨26, 6⟩]
  disjoint := by decide
  le := by decide

/-- The words of a date, the higher one first. -/
def Date.toyWords (d : Date) : UInt32 × UInt32 :=
  (UInt32.ofNat d.year, UInt32.ofBitVec (toyLayout.pack [d.sec, d.min, d.hour, d.mday, d.mon]))

/-- The word of an alarm. -/
def Date.toymatchWord (d : Date) : UInt32 :=
  UInt32.ofBitVec (toymatchLayout.pack [d.sec, d.min, d.hour, d.mday, d.mon, d.year])

/-- The bits of the time fields. -/
structure Tm.HasBits (tm : Tm) (d : Date) : Prop where
  year : tm.tmYear.toBitVec = BitVec.ofNat 32 d.year
  mon : tm.tmMon.toBitVec = BitVec.ofNat 32 d.mon
  mday : tm.tmMday.toBitVec = BitVec.ofNat 32 d.mday
  hour : tm.tmHour.toBitVec = BitVec.ofNat 32 d.hour
  min : tm.tmMin.toBitVec = BitVec.ofNat 32 d.min
  sec : tm.tmSec.toBitVec = BitVec.ofNat 32 d.sec

theorem Tm.CalendarForm.hasBits (h : tm.CalendarForm d) : tm.HasBits d := by
  obtain ⟨hyear, hmon, hmday, hhour, hmin, hsec⟩ := h
  obtain ⟨hsec', hmin', hhour', hmday', hmon'⟩ := d.lt_two_pow
  obtain ⟨-, hyear'⟩ := d.year_mem
  rw [Int.sub_zero, toInt_eq_natCast_iff (by omega)] at hyear hmon
  rw [toInt_eq_natCast_iff (by omega)] at hmday hhour hmin hsec
  exact ⟨hyear, hmon, hmday, hhour, hmin, hsec⟩

/-- The words are those of the form of the calendar. -/
theorem tmToToyDatetime_eq (h : (normalizeTm tm false).CalendarForm d) :
    tmToToyDatetime tm = d.toyWords := by
  obtain ⟨hyear, hmon, hmday, hhour, hmin, hsec⟩ := h.hasBits
  have hhi : UInt32.ofNat d.year = (normalizeTm tm false).tmYear.toUInt32 :=
    UInt32.toBitVec_inj.mp hyear.symm
  rw [Date.toyWords, hhi]
  simp only [WordLayout.pack, List.map_cons, List.map_nil, ← hmon, ← hmday, ← hhour, ← hmin, ← hsec]
  simp only [tmToToyDatetime, normalizeTm, Bool.false_eq_true, if_false, toyLayout, packFields,
    BitVec.or_zero, ← BitVec.or_assoc]
  split_ifs
  · rfl
  · rfl

theorem ls1xTmToToymatch_eq (h : (normalizeTm tm false).CalendarForm d) :
    ls1xTmToToymatch tm = d.toymatchWord := by
  obtain ⟨hyear, hmon, hmday, hhour, hmin, hsec⟩ := h.hasBits
  simp only [Date.toymatchWord, WordLayout.pack, List.map_cons, List.map_nil, ← hyear, ← hmon,
    ← hmday, ← hhour, ← hmin, ← hsec]
  simp only [ls1xTmToToymatch, normalizeTm, Bool.false_eq_true, if_false, toymatchLayout,
    packFields, BitVec.or_zero, ← BitVec.or_assoc]
  split_ifs
  · rfl
  · rfl

section

variable (L : WordLayout 32) (ks : List ℕ) {i : ℕ} {f : BitField} {k : ℕ} {v : Int32}

/-- A number that is read from a field. -/
theorem toInt_of_get_mod (hf : L.fields[i]? = some f) (hk : ks[i]? = some k) (hwidth : f.width ≤ 6)
    (hv : v.toBitVec = f.get (L.pack ks)) : v.toInt = (k % 2 ^ f.width : ℕ) := by
  have hlt : k % 2 ^ f.width < 2 ^ f.width := Nat.mod_lt k (Nat.two_pow_pos f.width)
  have hle : 2 ^ f.width ≤ 2 ^ 6 := Nat.pow_le_pow_right Nat.zero_lt_two hwidth
  rw [toInt_eq_natCast_iff (by omega), hv, L.get_pack hf hk]

/-- The field has place for the number. -/
theorem toInt_of_get (hf : L.fields[i]? = some f) (hk : ks[i]? = some k) (hwidth : f.width ≤ 6)
    (hv : v.toBitVec = f.get (L.pack ks)) (hlt : k < 2 ^ f.width) : v.toInt = k := by
  rw [toInt_of_get_mod L ks hf hk hwidth hv, Nat.mod_eq_of_lt hlt]

end

/-- The month comes back as that of C. -/
theorem toInt_sub_one_mon {v : Int32} (h : v.toInt = d.mon) : (v - 1).toInt = d.mon - 1 := by
  obtain ⟨-, hmon⟩ := d.mon_mem
  exact toInt_sub_of_inInt h rfl ⟨by omega, by omega⟩

theorem cForm_toyDatetimeToTm (d : Date) (dt : Tm) :
    (toyDatetimeToTm dt d.toyWords.1 d.toyWords.2).CForm d := by
  have hread {i f k v} := toInt_of_get toyLayout [d.sec, d.min, d.hour, d.mday, d.mon]
    (i := i) (f := f) (k := k) (v := v)
  obtain ⟨hsec, hmin, hhour, hmday, hmon⟩ := d.lt_two_pow
  obtain ⟨hyear, hyear'⟩ := d.year_mem
  constructor
  case sec => exact hread (i := 0) rfl rfl (by decide) rfl hsec
  case min => exact hread (i := 1) rfl rfl (by decide) rfl hmin
  case hour => exact hread (i := 2) rfl rfl (by decide) rfl hhour
  case mday => exact hread (i := 3) rfl rfl (by decide) rfl hmday
  case mon =>
    exact toInt_sub_one_mon (hread (i := 4) rfl rfl (by decide) rfl (hmon.trans (by decide)))
  case year =>
    have hhi : d.toyWords.1.toInt32.toInt = d.year := (toInt_eq_natCast_iff (by omega)).mpr rfl
    exact toInt_sub_of_inInt hhi rfl ⟨by omega, by omega⟩

/-- The six bits of the year are enough from 1984 to 2047. -/
theorem cForm_ls1xToymatchToTm (hle : 1984 ≤ d.year) (hle' : d.year ≤ 2047) (dt : Tm) :
    (ls1xToymatchToTm dt d.toymatchWord).CForm d := by
  have hread {i f k v} := toInt_of_get toymatchLayout [d.sec, d.min, d.hour, d.mday, d.mon, d.year]
    (i := i) (f := f) (k := k) (v := v)
  obtain ⟨hsec, hmin, hhour, hmday, hmon⟩ := d.lt_two_pow
  constructor
  case sec => exact hread (i := 0) rfl rfl (by decide) rfl hsec
  case min => exact hread (i := 1) rfl rfl (by decide) rfl hmin
  case hour => exact hread (i := 2) rfl rfl (by decide) rfl hhour
  case mday => exact hread (i := 3) rfl rfl (by decide) rfl hmday
  case mon =>
    exact toInt_sub_one_mon (hread (i := 4) rfl rfl (by decide) rfl hmon)
  case year =>
    have hmod : (d.year % 64 : ℕ) + 84 = (d.year : ℤ) - 1900 := by omega
    rw [← hmod]
    refine toInt_add_of_inInt ?_ rfl ⟨by omega, by omega⟩
    exact toInt_of_get_mod toymatchLayout [d.sec, d.min, d.hour, d.mday, d.mon, d.year] (i := 5)
      (f := ⟨26, 6⟩) rfl rfl (by decide) rfl

/-! ### There and back -/

/-- What the conversions do to the forms of a date. -/
structure Codec (d : Date) : Prop where
  toy : ∀ tm dt, tm.CForm d ∨ tm.CalendarForm d →
    toyDatetimeToTm dt (tmToToyDatetime tm).1 (tmToToyDatetime tm).2 =
      (normalizeTm tm true).withRest dt
  same_words : ∀ tm tm', tm.CForm d → tm'.CalendarForm d → tmToToyDatetime tm = tmToToyDatetime tm'
  forms : ∀ tm, tm.CForm d ∨ tm.CalendarForm d →
    (normalizeTm tm true).CForm d ∧ (normalizeTm tm false).CalendarForm d
  true_false : ∀ tm, tm.CForm d → normalizeTm (normalizeTm tm false) true = tm
  false_true : ∀ tm, tm.CalendarForm d → normalizeTm (normalizeTm tm true) false = tm
  idem : ∀ tm tmFormat, tm.CForm d ∨ tm.CalendarForm d →
    normalizeTm (normalizeTm tm tmFormat) tmFormat = normalizeTm tm tmFormat
  toymatch : 1984 ≤ d.year → d.year ≤ 2047 → ∀ tm dt, tm.CForm d ∨ tm.CalendarForm d →
    ls1xToymatchToTm dt (ls1xTmToToymatch tm) = (normalizeTm tm true).withRest dt

theorem cForm_normalizeTm_of_or (h : tm.CForm d ∨ tm.CalendarForm d) :
    (normalizeTm tm true).CForm d := by
  rcases h with h | h
  · exact (normalizeTm_true_of_cForm h).symm ▸ h
  · exact cForm_normalizeTm h

theorem calendarForm_normalizeTm_of_or (h : tm.CForm d ∨ tm.CalendarForm d) :
    (normalizeTm tm false).CalendarForm d := by
  rcases h with h | h
  · exact calendarForm_normalizeTm h
  · exact (normalizeTm_false_of_calendarForm h).symm ▸ h

/-- The other fields are left as they are. -/
@[simp]
theorem withRest_normalizeTm (tm dt : Tm) (tmFormat : Bool) :
    tm.withRest (normalizeTm dt tmFormat) = tm.withRest dt := by
  unfold normalizeTm
  split_ifs
  all_goals rfl

theorem normalizeTm_true_false (h : tm.CForm d) : normalizeTm (normalizeTm tm false) true = tm := by
  have hback := (cForm_normalizeTm (calendarForm_normalizeTm h)).eq_withRest h
  rwa [withRest_normalizeTm, withRest_normalizeTm] at hback

theorem normalizeTm_false_true (h : tm.CalendarForm d) :
    normalizeTm (normalizeTm tm true) false = tm := by
  have hback := (calendarForm_normalizeTm (cForm_normalizeTm h)).eq_withRest h
  rwa [withRest_normalizeTm, withRest_normalizeTm] at hback

theorem toyDatetimeToTm_tmToToyDatetime (h : tm.CForm d ∨ tm.CalendarForm d) (dt : Tm) :
    toyDatetimeToTm dt (tmToToyDatetime tm).1 (tmToToyDatetime tm).2 =
      (normalizeTm tm true).withRest dt := by
  rw [tmToToyDatetime_eq (calendarForm_normalizeTm_of_or h)]
  exact (cForm_toyDatetimeToTm d dt).eq_withRest (cForm_normalizeTm_of_or h)

/-- **Dates survive the clock** and the alarms. -/
theorem codec (d : Date) : Codec d where
  toy tm dt h := toyDatetimeToTm_tmToToyDatetime h dt
  same_words tm tm' h h' := by
    rw [tmToToyDatetime_eq (calendarForm_normalizeTm_of_or (.inl h)),
      tmToToyDatetime_eq (calendarForm_normalizeTm_of_or (.inr h'))]
  forms tm h := ⟨cForm_normalizeTm_of_or h, calendarForm_normalizeTm_of_or h⟩
  true_false tm h := normalizeTm_true_false h
  false_true tm h := normalizeTm_false_true h
  idem tm tmFormat h := by
    cases tmFormat with
    | true => exact normalizeTm_true_of_cForm (cForm_normalizeTm_of_or h)
    | false => exact normalizeTm_false_of_calendarForm (calendarForm_normalizeTm_of_or h)
  toymatch hle hle' tm dt h := by
    rw [ls1xTmToToymatch_eq (calendarForm_normalizeTm_of_or h)]
    exact (cForm_ls1xToymatchToTm hle hle' dt).eq_withRest (cForm_normalizeTm_of_or h)

/-! ### The first time -/

/-- A number without the sign bit is the same with a sign. -/
theorem toInt_toInt32 {v : UInt32} {k : ℕ} (hk : k < 2147483648) (h : v.toNat = k) :
    v.toInt32.toInt = k := by
  rw [toInt_eq_natCast_iff hk, ← h]
  exact (BitVec.ofNat_toNat 32 v.toBitVec).symm

/-- `init_rtc_time` gives a date in the form of the calendar. -/
theorem initRtcTime_calendarForm {p : ProductInfo} (hyear : p.year.toNat = d.year)
    (hmon : p.mon.toNat = d.mon) (hday : p.day.toNat = d.mday) (hhour : d.hour = 8)
    (hmin : d.min = 0) (hsec : d.sec = 0) (obj : Tm) : (initRtcTime obj p).CalendarForm d := by
  obtain ⟨-, hyear'⟩ := d.year_mem
  obtain ⟨-, hmon'⟩ := d.mon_mem
  obtain ⟨-, hmday'⟩ := d.mday_mem
  constructor
  case year => rw [Int.sub_zero, ← toInt_toInt32 (by omega) hyear]; rfl
  case mon => rw [Int.sub_zero, ← toInt_toInt32 (by omega) hmon]; rfl
  case mday => exact toInt_toInt32 (by omega) hday
  case hour => rw [hhour]; rfl
  case min => rw [hmin]; rfl
  case sec => rw [hsec]; rfl

/-- What the clock is set to is read back in the form of C. -/
theorem toyDatetimeToTm_initRtcTime {p : ProductInfo} (hyear : p.year.toNat = d.year)
    (hmon : p.mon.toNat = d.mon) (hday : p.day.toNat = d.mday) (hhour : d.hour = 8)
    (hmin : d.min = 0) (hsec : d.sec = 0) (obj dt : Tm) :
    (toyDatetimeToTm dt (tmToToyDatetime (initRtcTime obj p)).1
      (tmToToyDatetime (initRtcTime obj p)).2).CForm d := by
  have hform := initRtcTime_calendarForm hyear hmon hday hhour hmin hsec obj
  rw [tmToToyDatetime_eq (calendarForm_normalizeTm_of_or (.inr hform))]
  exact cForm_toyDatetimeToTm d dt

/-- The time that the controller starts with. -/
example : tmToToyDatetime (initRtcTime ⟨0, 0, 0, 0, 0, 0, 0, 0, 0⟩ initInfo) =
    (2022, 0x1DA80000) := by decide

end SortingLine.Rtc
