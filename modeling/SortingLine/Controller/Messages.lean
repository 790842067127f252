import SortingLine.Controller.FileLog
import SortingLine.Library.Bytes
import SortingLine.RtMq.Queue

/-!
# The messages as bytes

`rt_mq_buf` is a union of five words and twenty characters, `rt_mq_lbuf` one of six words and
twenty-four.  Here the senders produce the bytes they pass to `rt_mq_send`, and the receivers read
the bytes that `rt_mq_recv` leaves in their buffer.  The names are those of the typed functions of
`Controller/Data.lean`; `Controller/Equiv/Messages.lean` shows that what a receiver reads is what
the sender's typed function says.
-/

namespace SortingLine.Wire

/-! ### Messages for the flush task -/

/-- `send_v_threshold_msg`. -/
def sendVThresholdMsg (r : ResParas) : List UInt8 := words [2, r.vThreshold]

/-- `send_rtc_msg`. -/
def sendRtcMsg (p : ProductInfo) : List UInt8 := words [3, p.year, p.mon, p.day]

/-- `send_data_msg`. -/
def sendDataMsg (r : ResParas) (p : ProductInfo) : List UInt8 :=
  words [1, r.vMeasure, r.qualified, p.total, p.qualifiedAmount]

/-- `send_product_info_msg`. -/
def sendProductInfoMsg (p : ProductInfo) : List UInt8 := words [4, p.total, p.qualifiedAmount]

/-- `send_csq`. -/
def sendCsq (t : TrStat) : List UInt8 := words [5, t.csq]

/-- `send_msg_id_msg`. -/
def sendMsgIdMsg (t : TrStat) : List UInt8 := words [6, t.msgId]

/-- The `switch` of `rt_flush_task`; `none` is its `default`. -/
def flushSwitch (rbuf : List UInt8) : Option OutMsg :=
  match (wordAt rbuf 0).toNat with
  | 1 => some (.data (wordAt rbuf 1) (wordAt rbuf 2) (wordAt rbuf 3) (wordAt rbuf 4))
  | 2 => some (.threshold (wordAt rbuf 1))
  | 3 => some (.rtc (wordAt rbuf 1) (wordAt rbuf 2) (wordAt rbuf 3))
  | 4 => some (.productInfo (wordAt rbuf 1) (wordAt rbuf 2))
  | 5 => some (.csq (wordAt rbuf 1))
  | 6 => some (.msgId (wordAt rbuf 1))
  | _ => none

/-! ### Messages for the file thread -/

/-- `send_info_to_file_msg`, reading `subf` as `sbuf`. -/
def sendInfoToFileMsg (p : ProductInfo) : List UInt8 := words [1, p.total, p.qualifiedAmount]

/-- `send_date_to_file_msg`, reading `subf` as `sbuf`. -/
def sendDateToFileMsg (p : ProductInfo) : List UInt8 := words [2, p.year, p.mon, p.day]

/-- The `switch` of `file_wr_task`.  `case 1` writes the flag 3 over the code and then 12 bytes from
the front of the buffer, `case 2` the 12 bytes behind the code. -/
def fileSwitch (d : Disk) (rbuf : List UInt8) : Disk :=
  match (wordAt rbuf 0).toNat with
  | 1 => d.fileWrite ((patch rbuf 0 (words [3])).take 12) 0
  | 2 => d.fileWrite ((rbuf.drop 4).take 12) 12
  | _ => d

/-! ### Messages for `main` -/

/-- `input_interrupt_isr`. -/
def inputInterruptIsr : List UInt8 := words [1]

/-- `send_file_msg`: the code 2 alone for a blank log, or the whole log with the code 3. -/
def sendFileMsg (rbuf : List UInt8) : List UInt8 :=
  if wordAt rbuf 0 = 0 then words [2] else patch rbuf 0 (words [3])

/-- `nb_get_csq`, its last lines. -/
def nbGetCsq (c₄ c₅ : UInt8) : List UInt8 := words [4] ++ [c₄, c₅]

/-- `nb_get_time`, its last lines. -/
def nbGetTime (d : Vector UInt8 8) : List UInt8 := words [5] ++ d.toList

/-- `send_btn_msg`, as `main_onclick_0001` and `main_onclick_0002` call it. -/
def sendBtnMsg (up : Bool) : List UInt8 := words [if up then 6 else 7]

/-- `send_nb_conn_msg`. -/
def sendNbConnMsg : List UInt8 := words [8]

/-- `input_interrupt_isr2`. -/
def inputInterruptIsr2 : List UInt8 := words [9]

/-- What the `switch` of `main` reads from `r_buf`; `none` is its `default`. -/
def mainSwitch (rBuf : List UInt8) : Option (MainMsg Unit) :=
  match (wordAt rBuf 0).toNat with
  | 1 => some .weigh
  | 2 => some .blankLog
  -- `val_arr[5]` is not in the buffer
  | 3 => some (.restore (wordAt rBuf 1) (wordAt rBuf 2) (wordAt rBuf 3) (wordAt rBuf 4))
  | 4 => some (.csq (rBuf.getD 4 0) (rBuf.getD 5 0))
  | 5 => some (.date (Vector.ofFn fun i => rBuf.getD (4 + i) 0))
  | 6 => some .thresholdUp
  | 7 => some .thresholdDown
  | 8 => some (.published ())
  | 9 => some .grabbed
  | _ => none

/-! ### A power cycle -/

/-- What a power cycle makes of `p`: `main` sends it to the file thread, which writes it to the log;
after a restart the file thread reads the log and reports it, and `main` runs `case 3`.  `rbuf` and
`rbuf'` are the file thread's buffer before and after the restart, `rBuf` is that of `main` and
`after` the word behind it.  `none`: somebody waits for ever, or `main` reads another code. -/
def restoredInfo (p : ProductInfo) (fileWriteMq : RtMq (slotSize 24) 2) (rbuf : Vector UInt8 24)
    (d : Disk) (rbuf' : Vector UInt8 24) (mainMq : RtMq (slotSize 20) 6) (rBuf : Vector UInt8 20)
    (after : UInt32) : Option ProductInfo := do
  let fileWriteMq := (fileWriteMq.send (sendInfoToFileMsg p)).2
  let fileWriteMq := (fileWriteMq.send (sendDateToFileMsg p)).2
  let (rbuf, fileWriteMq) ← fileWriteMq.recv rbuf.toList 24
  let d := fileSwitch d rbuf
  let (rbuf, _) ← fileWriteMq.recv rbuf 24
  let d := fileSwitch d rbuf
  -- the restart: the queues and the buffers are new, the disk is not
  let rbuf' := d.fileRead rbuf'.toList 24
  let waiting := mainMq.queue.length
  let mainMq := (mainMq.send (sendFileMsg rbuf')).2
  -- `main` takes what was sent before the report, and then the report
  let mainMq := RtMq.pop^[waiting] mainMq
  let (rBuf, _) ← mainMq.recv rBuf.toList 20
  match mainSwitch rBuf with
  | some (.restore total qualifiedAmount year mon) =>
    some (setProductInfo total qualifiedAmount year mon after)
  | _ => none

/-! ### Reports to the cloud -/

/-- `n + '0'`, stored in a `char`. -/
def digit (n : UInt32) : UInt8 := (n + 48).toUInt8

/-- `send_nb_msg`. -/
def sendNbMsg (r : ResParas) (t : TrStat) : List UInt8 :=
  words [1] ++
  [digit (r.vMeasure / 1000), digit ((r.vMeasure % 1000) / 100), digit ((r.vMeasure % 100) / 10),
    digit (r.vMeasure % 10),
    digit r.qualified,
    -- the id, and then the threshold: its hundreds digit is taken modulo 100, not 1000
    digit (t.msgId / 100), digit ((t.msgId % 100) / 10), digit (t.msgId % 10),
    digit (r.vThreshold / 1000), digit ((r.vThreshold % 100) / 100),
    digit ((r.vThreshold % 100) / 10), digit (r.vThreshold % 10)]

/-- The assignments `a[i] = r->asc_str[j]` of `set_at_cmd`, in order, as pairs `(i, j)`. -/
def atCmdFields : List (Nat × Nat) :=
  [(84, 9), (85, 10), (86, 11), (128, 4), (130, 5), (131, 6), (132, 7), (140, 8), (149, 12),
    (151, 13), (152, 14), (153, 15)]

/-- `set_at_cmd`. -/
def setAtCmd (a r : List UInt8) : List UInt8 :=
  atCmdFields.foldl (fun a f => a.set f.1 (r.getD f.2 0)) a

end SortingLine.Wire
