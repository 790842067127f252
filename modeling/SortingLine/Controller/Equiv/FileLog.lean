import SortingLine.Controller.FileLog

/-!
# The log, word by word

What `file_write` and `file_read` do to the six words of the log: the message with the totals
replaces the words 0 to 2, the message with the date the words 3 to 5, and reading gives back every
word that the log is long enough for.
-/

namespace SortingLine.Disk

variable {d : Disk}

theorem log_fileWrite (data : List UInt8) (offset : Nat) :
    (d.fileWrite data offset).log = patch d.log offset data := rfl

theorem length_log_handle (m : FileMsg) : (d.handle m).log.length
    = max d.log.length (match m with | .info .. => 12 | .date .. => 24) := by
  cases m <;> rw [handle, log_fileWrite, length_patch, length_words] <;> rfl

theorem wordAt_log_handle_info (total qualifiedAmount : UInt32) (i : Nat) :
    wordAt (d.handle (.info total qualifiedAmount)).log i
      = if i < 3 then [3, total, qualifiedAmount].getD i 0 else wordAt d.log i := by
  have h : wordAt (d.handle (.info total qualifiedAmount)).log i
      = if 0 ≤ i ∧ i < 0 + 3 then [3, total, qualifiedAmount].getD (i - 0) 0 else wordAt d.log i :=
    wordAt_patch_words d.log 0 [3, total, qualifiedAmount] i
  simpa using h

theorem wordAt_log_handle_date (year mon day : UInt32) (i : Nat) :
    wordAt (d.handle (.date year mon day)).log i
      = if 3 ≤ i ∧ i < 6 then [year, mon, day].getD (i - 3) 0 else wordAt d.log i :=
  wordAt_patch_words d.log 3 [year, mon, day] i

/-- Reading gives every word that the log is long enough for. -/
theorem wordAt_fileRead (rbuf : List UInt8) {i : Nat} (hi : i < 6)
    (h : 4 * i + 4 ≤ d.log.length) : wordAt (d.fileRead rbuf 24) i = wordAt d.log i := by
  refine wordAt_congr fun k hk hk' => ?_
  have hlen : (d.log.take 24).length = min 24 d.log.length := List.length_take
  rw [fileRead, getD_patch, if_pos (by omega), Nat.sub_zero]
  simp [List.getD_eq_getElem?_getD, show k < 24 by omega]

theorem length_fileRead {rbuf : List UInt8} (h : rbuf.length = 24) :
    (d.fileRead rbuf 24).length = 24 := by
  rw [fileRead, length_patch, List.length_take]
  omega

end SortingLine.Disk
