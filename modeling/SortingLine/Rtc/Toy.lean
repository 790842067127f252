import SortingLine.Controller.Data

/-!
# The date of the clock

The conversions of `ls1x_rtc.c` between `struct tm` and the words of the clock and of the `TOYMATCH`
registers, and the time that `main.c` sets.  An `int` that is shifted to the left keeps its 32 bits,
as the compiler documents.
-/

namespace SortingLine.Rtc

/-- `struct tm` -/
structure Tm where
  tmSec : Int32
  tmMin : Int32
  tmHour : Int32
  tmMday : Int32
  tmMon : Int32
  tmYear : Int32
  tmWday : Int32
  tmYday : Int32
  tmIsdst : Int32
deriving DecidableEq

/-- `normalize_tm` -/
def normalizeTm (tm : Tm) (tmFormat : Bool) : Tm :=
  if tmFormat then
    if 1900 ≤ tm.tmYear then { tm with tmYear := tm.tmYear - 1900, tmMon := tm.tmMon - 1 } else tm
  else
    if tm.tmYear < 1900 then { tm with tmYear := tm.tmYear + 1900, tmMon := tm.tmMon + 1 } else tm

/-- `tm_to_toy_datetime`, the words `hi` and `lo`. -/
def tmToToyDatetime (dt : Tm) : UInt32 × UInt32 :=
  if dt.tmYear < 1900 then
    ((dt.tmYear + 1900).toUInt32,
      ((dt.tmSec &&& 0x3F) <<< 4 |||
        (dt.tmMin &&& 0x3F) <<< 10 |||
        (dt.tmHour &&& 0x1F) <<< 16 |||
        (dt.tmMday &&& 0x1F) <<< 21 |||
        (dt.tmMon + 1 &&& 0x3F) <<< 26).toUInt32)
  else
    (dt.tmYear.toUInt32,
      ((dt.tmSec &&& 0x3F) <<< 4 |||
        (dt.tmMin &&& 0x3F) <<< 10 |||
        (dt.tmHour &&& 0x1F) <<< 16 |||
        (dt.tmMday &&& 0x1F) <<< 21 |||
        (dt.tmMon &&& 0x3F) <<< 26).toUInt32)

/-- `toy_datetime_to_tm` -/
def toyDatetimeToTm (dt : Tm) (hi lo : UInt32) : Tm :=
  { dt with
    tmSec := (lo >>> 4 &&& 0x3F).toInt32
    tmMin := (lo >>> 10 &&& 0x3F).toInt32
    tmHour := (lo >>> 16 &&& 0x1F).toInt32
    tmMday := (lo >>> 21 &&& 0x1F).toInt32
    tmMon := (lo >>> 26 &&& 0x3F).toInt32 - 1
    tmYear := hi.toInt32 - 1900 }

/-- `ls1x_tm_to_toymatch` -/
def ls1xTmToToymatch (dt : Tm) : UInt32 :=
  if dt.tmYear < 1900 then
    ((dt.tmSec &&& 0x3F) <<< 0 |||
      (dt.tmMin &&& 0x3F) <<< 6 |||
      (dt.tmHour &&& 0x1F) <<< 12 |||
      (dt.tmMday &&& 0x1F) <<< 17 |||
      (dt.tmMon + 1 &&& 0x0F) <<< 22 |||
      (dt.tmYear + 1900 &&& 0x3F) <<< 26).toUInt32
  else
    ((dt.tmSec &&& 0x3F) <<< 0 |||
      (dt.tmMin &&& 0x3F) <<< 6 |||
      (dt.tmHour &&& 0x1F) <<< 12 |||
      (dt.tmMday &&& 0x1F) <<< 17 |||
      (dt.tmMon &&& 0x0F) <<< 22 |||
      (dt.tmYear &&& 0x3F) <<< 26).toUInt32

/-- `ls1x_toymatch_to_tm` -/
def ls1xToymatchToTm (dt : Tm) (toymatch : UInt32) : Tm :=
  { dt with
    tmSec := (toymatch >>> 0 &&& 0x3F).toInt32
    tmMin := (toymatch >>> 6 &&& 0x3F).toInt32
    tmHour := (toymatch >>> 12 &&& 0x1F).toInt32
    tmMday := (toymatch >>> 17 &&& 0x1F).toInt32
    tmMon := (toymatch >>> 22 &&& 0x0F).toInt32 - 1
    tmYear := (toymatch >>> 26 &&& 0x3F).toInt32 + 84 }

/-- `init_rtc_time`, the time that it sets. -/
def initRtcTime (obj : Tm) (p : ProductInfo) : Tm :=
  { obj with
    tmYear := p.year.toInt32
    tmMon := p.mon.toInt32
    tmMday := p.day.toInt32
    tmHour := 8
    tmMin := 0
    tmSec := 0 }

end SortingLine.Rtc
