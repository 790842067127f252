import SortingLine.Controller.Data
import SortingLine.Library.Bytes

/-!
# The file thread

`file_wr_task` of `file_wr.c` and the functions it calls.  The log is one file of 24 bytes, read as
six words: a flag (0 for a blank log), the two totals, and year, month and day.  The file system
is taken at its documented behaviour: `yaffs_open` with the create flag makes a missing file, a
write at an offset replaces the bytes there and extends the file, a read copies what there is.
-/

namespace SortingLine

/-- The part of the disk the file thread uses. -/
structure Disk where
  /-- `/ndd/userlog` exists. -/
  userlog : Bool
  /-- The contents of `/ndd/userlog/logfile`, if it exists. -/
  logfile : Option (List UInt8)
deriving DecidableEq

namespace Disk

/-- The bytes of the log; a missing file is created empty by the first `yaffs_open`. -/
def log (d : Disk) : List UInt8 := d.logfile.getD []

/-- `file_write (file_name, wbuf, nbyte, offset)`, with `data` the `nbyte` bytes at `wbuf`. -/
def fileWrite (d : Disk) (data : List UInt8) (offset : Nat) : Disk :=
  { d with logfile := some (patch d.log offset data) }

/-- `file_read (file_name, rbuf, nbyte, 0)`: the new contents of `rbuf`.  `yaffs_read` copies no
more than the file holds; the result of `file_read` does not say how much that was. -/
def fileRead (d : Disk) (rbuf : List UInt8) (nbyte : Nat) : List UInt8 :=
  patch rbuf 0 (d.log.take nbyte)

/-- `yaffs_mkdir (file_dir, ..)`. -/
def mkdir (d : Disk) : Disk := { d with userlog := true }

end Disk

/-- Where the file thread stands. -/
inductive FilePc
  /-- Before `yaffs_opendir`. -/
  | start
  /-- The directory was just made; about to write the blank log. -/
  | blank
  /-- About to read the log. -/
  | read
  /-- About to report to `main` what was read. -/
  | report (rbuf : List UInt8)
  /-- In `rt_mq_recv (file_write_mq, ..)`. -/
  | idle
  /-- A message was received; about to write. -/
  | write (m : FileMsg)
  /-- `yaffs` is not running: the thread has ended. -/
  | ended
deriving DecidableEq

/-- `send_file_msg`: what the file thread tells `main` about the log. -/
def sendFileMsg {τ : Type} (rbuf : List UInt8) : MainMsg τ :=
  -- word 5, the day, is sent too, but `main` does not receive it
  if wordAt rbuf 0 = 0 then .blankLog
  else .restore (wordAt rbuf 1) (wordAt rbuf 2) (wordAt rbuf 3) (wordAt rbuf 4)

/-- The `switch` of `file_wr_task`: the totals go to the front of the file, with the flag 3, the
date behind them. -/
def Disk.handle (d : Disk) : FileMsg → Disk
  | .info total qualifiedAmount => d.fileWrite (words [3, total, qualifiedAmount]) 0
  | .date year mon day => d.fileWrite (words [year, mon, day]) 12

end SortingLine
