import EtherApe.Export

/-!
# Texts of the windows

The functions of `ui_utils.c` that write times and traffic for the tables, without translation of the
messages. What `localtime_r` makes of a time is a parameter. Traffic is the value of a double, and so is its
quotient by a power of ten; a quotient by a power of two is exact.
-/

namespace EtherApe

open Printf

/-- The time difference `a - b`, with the carry of the microseconds. -/
def substractTimes (a b : Timeval) : Timeval :=
  let b : Timeval :=
    if a.tvUsec < b.tvUsec then
      let nsec := (b.tvUsec - a.tvUsec) / 1000000 + 1
      ⟨b.tvSec + nsec, b.tvUsec - 1000000 * nsec⟩
    else b
  let b : Timeval :=
    if 1000000 < a.tvUsec - b.tvUsec then
      let nsec := (a.tvUsec - b.tvUsec) / 1000000
      ⟨b.tvSec - nsec, b.tvUsec + 1000000 * nsec⟩
    else b
  ⟨a.tvSec - b.tvSec, a.tvUsec - b.tvUsec⟩

/-- The time at which a table is written, and the conversion to local time, which can fail. -/
structure Clock where
  now : Timeval
  localtime : Int → Option Export.Tm

def timevalToStr (clock : Clock) (lastHeard : Timeval) : Option (List UInt8) :=
  let diff := substractTimes clock.now lastHeard
  if diff.tvSec ≤ 60 then some (signed diff.tvSec ++ lit "\" ago")
  else if diff.tvSec < 600 then
    some (signed (diff.tvSec / 60) ++ lit "'" ++ signed (diff.tvSec % 60) ++ lit "\" ago")
  else
    (clock.localtime lastHeard.tvSec).map fun brokenTime =>
      let time := decimal brokenTime.tmHour ++ lit ":" ++ decimal brokenTime.tmMin
      if diff.tvSec < 3600 * 24 then time
      else decimal brokenTime.tmMon ++ lit "/" ++ decimal brokenTime.tmMday ++ lit " " ++ time

def trafficToStr (traffic : ℚ) (isSpeed : Bool) : List UInt8 :=
  if isSpeed then
    if 1000000000 < traffic then fixed 2 (binary64 (traffic / 1000000000)) ++ lit " Gbps"
    else if 1000000 < traffic then fixed 2 (binary64 (traffic / 1000000)) ++ lit " Mbps"
    else if 1000 < traffic then fixed 2 (binary64 (traffic / 1000)) ++ lit " Kbps"
    else fixed 0 traffic ++ lit " bps"
  else if 1024 * 1024 * 1024 < traffic then fixed 2 (traffic / (1024 * 1024 * 1024)) ++ lit " Gbytes"
  else if 1024 * 1024 < traffic then fixed 2 (traffic / 1024 / 1024) ++ lit " Mbytes"
  else if 1024 < traffic then fixed 2 (traffic / 1024) ++ lit " Kbytes"
  else fixed 0 traffic ++ lit " bytes"

example : trafficToStr 1015 true = lit "1.01 Kbps" := by decide +kernel

end EtherApe
