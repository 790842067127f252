import Mathlib.Data.List.Basic

/-!
# Records and messages of the controller

The records of `src/datastructure_def.h`, the functions of `main.c` that update them, and the
messages the threads exchange.  Each message type below lists what its senders put on one queue
and its receiver reads; `Controller/Messages.lean` gives the bytes.

`unsigned int` is `UInt32`, `uint16_t` is `UInt16`, `char` is `UInt8` (read as a signed value where
the code computes with it).  The fields that nothing reads (`hour`, `min`, `stat_code`) and
`send_stat_code_msg`, which nothing calls, are left out.
-/

namespace SortingLine

/-! ### Records -/

/-- `res_paras`: the last measurement, the threshold and the verdict. -/
structure ResParas where
  vMeasure : UInt32
  vThreshold : UInt32
  qualified : UInt32
deriving DecidableEq, Repr

/-- `product_info`: the production statistics and the date. -/
structure ProductInfo where
  total : UInt32
  qualifiedAmount : UInt32
  year : UInt32
  mon : UInt32
  day : UInt32
deriving DecidableEq, Repr

/-- `tr_stat`: signal quality, and the id that tells one report from another. -/
structure TrStat where
  csq : UInt32
  msgId : UInt32
deriving DecidableEq, Repr

/-- `init_datastructure`, the measurement. -/
def initRes : ResParas := { vMeasure := 0, vThreshold := 350, qualified := 0 }

/-- `init_datastructure`, the statistics. -/
def initInfo : ProductInfo :=
  { total := 0, qualifiedAmount := 0, year := 2022, mon := 7, day := 13 }

/-- `init_datastructure`, the communication state. -/
def initStat : TrStat := { csq := 0, msgId := 0 }

/-! ### Messages

`τ` is the type of a history value that travels with a message for the sake of the proofs.  Every
function that handles a message is generic in it, so no handler can read it. -/

/-- The four message queues. -/
inductive Mq
  | mainMq
  | outputDatasMq
  | fileWriteMq
  | nbiotMq
deriving DecidableEq

/-- Messages on `main_mq`, in the order of their codes 1 to 9. -/
inductive MainMsg (τ : Type)
  /-- Code 1, from `input_interrupt_isr`: one resistor is in place. -/
  | weigh
  /-- Code 2, from the file thread: the log is blank. -/
  | blankLog
  /-- Code 3, from the file thread: the words 1 to 4 of the log.  Word 5, the day, is in the slot
  too, but `main` receives 20 bytes only. -/
  | restore (total qualifiedAmount year mon : UInt32)
  /-- Code 4, from the NB thread: `asc_str[4]` and `asc_str[5]`. -/
  | csq (c₄ c₅ : UInt8)
  /-- Code 5, from the NB thread: `asc_str[4]` to `asc_str[11]`. -/
  | date (d : Vector UInt8 8)
  /-- Code 6, button: raise the threshold. -/
  | thresholdUp
  /-- Code 7, button: lower the threshold. -/
  | thresholdDown
  /-- Code 8, from the NB thread: a record was published. -/
  | published (tag : τ)
  /-- Code 9, from `input_interrupt_isr2`: all six resistors are grabbed. -/
  | grabbed
deriving DecidableEq, Repr

/-- Messages on `output_datas_mq`, in the order of their codes 1 to 6. -/
inductive OutMsg
  | data (vMeasure qualified total qualifiedAmount : UInt32)
  | threshold (v : UInt32)
  | rtc (year mon day : UInt32)
  | productInfo (total qualifiedAmount : UInt32)
  | csq (v : UInt32)
  | msgId (v : UInt32)
deriving DecidableEq, Repr

/-- Messages on `file_write_mq`, in the order of their codes 1 and 2. -/
inductive FileMsg
  | info (total qualifiedAmount : UInt32)
  | date (year mon day : UInt32)
deriving DecidableEq, Repr

/-- What `send_nb_msg` puts into a message on `nbiot_mq` (code 1), digit by digit. -/
structure NbRecord where
  vMeasure : UInt32
  qualified : UInt32
  msgId : UInt32
  vThreshold : UInt32
deriving DecidableEq, Repr

/-! ### Updates -/

/-- `set_v_measure`. -/
def setVMeasure (r : ResParas) (t : UInt16) : ResParas := { r with vMeasure := t.toUInt32 * 2 }

/-- `set_qualified`. -/
def setQualified (r : ResParas) : ResParas :=
  { r with qualified := if r.vMeasure > r.vThreshold then 1 else 0 }

/-- `add_porduct`. -/
def addPorduct (p : ProductInfo) (r : ResParas) : ProductInfo :=
  { p with total := p.total + 1, qualifiedAmount := p.qualifiedAmount + r.qualified }

/-- `set_msg_id`. -/
def setMsgId (t : TrStat) : TrStat :=
  { t with msgId := if t.msgId + 1 > 999 then 0 else t.msgId + 1 }

/-- `set_product_info`: `after` is `val_arr[5]`, the word that follows `r_buf` in memory. -/
def setProductInfo (total qualifiedAmount year mon after : UInt32) : ProductInfo :=
  { total, qualifiedAmount, year, mon, day := after }

/-- `c - '0'` for a `char`. -/
def charDigit (c : UInt8) : Int := c.toInt8.toInt - 48

/-- `set_csq`. -/
def setCsq (c₄ c₅ : UInt8) (t : TrStat) : TrStat :=
  { t with csq := UInt32.ofInt (charDigit c₄ * 10 + charDigit c₅) }

/-- `set_date_time`. -/
def setDateTime (d : Vector UInt8 8) (p : ProductInfo) : ProductInfo :=
  { p with
    year := UInt32.ofInt (charDigit d[0] * 1000 + charDigit d[1] * 100 + charDigit d[2] * 10
      + charDigit d[3])
    mon := UInt32.ofInt (charDigit d[4] * 10 + charDigit d[5])
    day := UInt32.ofInt (charDigit d[6] * 10 + charDigit d[7]) }

/-! ### The messages `main` sends -/

/-- `send_v_threshold_msg`. -/
def sendVThresholdMsg (r : ResParas) : OutMsg := .threshold r.vThreshold

/-- `send_rtc_msg`. -/
def sendRtcMsg (p : ProductInfo) : OutMsg := .rtc p.year p.mon p.day

/-- `send_data_msg`. -/
def sendDataMsg (r : ResParas) (p : ProductInfo) : OutMsg :=
  .data r.vMeasure r.qualified p.total p.qualifiedAmount

/-- `send_product_info_msg`. -/
def sendProductInfoMsg (p : ProductInfo) : OutMsg := .productInfo p.total p.qualifiedAmount

/-- `send_csq`. -/
def sendCsq (t : TrStat) : OutMsg := .csq t.csq

/-- `send_msg_id_msg`. -/
def sendMsgIdMsg (t : TrStat) : OutMsg := .msgId t.msgId

/-- `send_nb_msg`. -/
def sendNbMsg (r : ResParas) (t : TrStat) : NbRecord :=
  { vMeasure := r.vMeasure, qualified := r.qualified, msgId := t.msgId, vThreshold := r.vThreshold }

/-- `send_info_to_file_msg`, reading `subf` as `sbuf`. -/
def sendInfoToFileMsg (p : ProductInfo) : FileMsg := .info p.total p.qualifiedAmount

/-- `send_date_to_file_msg`, reading `subf` as `sbuf`. -/
def sendDateToFileMsg (p : ProductInfo) : FileMsg := .date p.year p.mon p.day

end SortingLine
