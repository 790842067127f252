import SortingLine.Controller.Data

/-!
# The message loop of `main`

One iteration of the loop receives a message and runs its `case`.  `main` has the highest priority
of all threads (`RT_MAIN_THREAD_PRIORITY` is 10, the others have 17 to 19), so no other thread runs
between two points where it blocks; only the two interrupt handlers do, and these share with `main`
nothing but `main_mq` and the interrupt enable register.  The steps of `main` are therefore cut

* where it blocks: in `rt_mq_recv`, in the two `rt_device_read` calls (`ADS1015_read` sleeps) and in
  `rt_thread_delay (800)`;
* at each load and each store of the interrupt enable register: `ls1x_enable_gpio_interrupt` does
  `LS1x_INTC_IEN(intc_base) |= intc_bit`, which is not one access.

A step returns the new local state and, in program order, what it did outside.
-/

namespace SortingLine

/-- The two input pins: `INPUT_SIGNAL` (37) and `INPUT_SIGNAL2` (34). -/
inductive Pin
  | inputSignal
  | inputSignal2
deriving DecidableEq, Repr

/-- The bits of the two input pins in the enable register of interrupt controller 3; a pin whose
bit is clear is masked. -/
structure Ien where
  signal : Bool
  signal2 : Bool
deriving DecidableEq, Repr

/-- Set or clear the bit of a pin. -/
def Ien.set (r : Ien) (p : Pin) (b : Bool) : Ien :=
  match p with
  | .inputSignal => { r with signal := b }
  | .inputSignal2 => { r with signal2 := b }

/-- Where `main` stands. -/
inductive MainPc
  /-- In `rt_mq_recv (main_mq, ..)`. -/
  | recv
  /-- `case 1`, in `rt_device_read (.., &temp_adc, 2)`. -/
  | readWeigh
  /-- `case 9`, in `rt_device_read (.., &adc_sum, 2)`. -/
  | readGrab
  /-- `case 1`, in `rt_thread_delay (800)`. -/
  | delay
  /-- `case 1`, about to load the enable register for `INPUT_SIGNAL2`. -/
  | enable2Load
  /-- `case 1`, about to store it; `loaded` is what was loaded. -/
  | enable2Store (loaded : Ien)
  /-- `case 1`, about to load the enable register for `INPUT_SIGNAL`. -/
  | enableLoad
  /-- `case 1`, about to store it; `loaded` is what was loaded. -/
  | enableStore (loaded : Ien)
deriving DecidableEq, Repr

/-- The local state of `main`. -/
structure Main where
  pc : MainPc
  res : ResParas
  info : ProductInfo
  stat : TrStat
  ctrlFlow : UInt8
  adcSum : UInt16
  adcMeasureCount : UInt8
  tempAdc : UInt16
deriving DecidableEq, Repr

/-- What a step of `main` does outside: a send on one of the three queues it feeds, or a write to
`PULSE_OUT`. -/
inductive Effect
  | output (m : OutMsg)
  | file (m : FileMsg)
  | nb (r : NbRecord)
  | pulse (v : UInt32)
deriving DecidableEq, Repr

namespace Main

/-- The state before the loop; `temp_adc` is not initialised. -/
def start (tempAdc : UInt16) : Main :=
  { pc := .recv, res := initRes, info := initInfo, stat := initStat, ctrlFlow := 0, adcSum := 0,
    adcMeasureCount := 0, tempAdc }

variable {τ : Type}

/-- From `rt_mq_recv` through the `switch` to the next point where `main` blocks.  `after` is the
word that follows `r_buf` in memory, which `set_product_info` reads as `val_arr[5]`. -/
def recv (m : Main) (msg : MainMsg τ) (after : UInt32) : Main × List Effect :=
  match msg with
  -- outside a batch `case 1` does nothing, and leaves the pin masked
  | .weigh => if m.ctrlFlow ≠ 0 then ({ m with pc := .readWeigh }, []) else (m, [])
  | .blankLog => (m, [.file (sendInfoToFileMsg m.info), .file (sendDateToFileMsg m.info)])
  | .restore total qualifiedAmount year mon =>
    -- what was counted so far is overwritten
    let info := setProductInfo total qualifiedAmount year mon after
    ({ m with info }, [.output (sendRtcMsg info), .output (sendProductInfoMsg info)])
  | .csq c₄ c₅ =>
    let stat := setCsq c₄ c₅ m.stat
    ({ m with stat }, [.output (sendCsq stat)])
  | .date d =>
    let info := setDateTime d m.info
    ({ m with info }, [.output (sendRtcMsg info)])
  | .thresholdUp =>
    let res := { m.res with vThreshold := m.res.vThreshold + 10 }
    ({ m with res }, [.output (sendVThresholdMsg res)])
  | .thresholdDown =>
    let res := { m.res with vThreshold := m.res.vThreshold - 10 }
    ({ m with res }, [.output (sendVThresholdMsg res)])
  -- the message carries no id: what is shown is the newest
  | .published _ => (m, [.output (sendMsgIdMsg m.stat)])
  -- in a batch another announcement counts as a glitch
  | .grabbed => if m.ctrlFlow = 0 then ({ m with pc := .readGrab }, []) else (m, [])

/-- `case 9` from the return of `rt_device_read` on; a failed read (`none`) leaves `adc_sum` as it
was. -/
def readGrab (m : Main) (adc : Option UInt16) : Main :=
  { m with pc := .recv, adcSum := adc.getD m.adcSum, adcMeasureCount := 6, ctrlFlow := 1 }

/-- `case 1`: the measurement record after `set_v_measure` and `set_qualified`. -/
def measure (m : Main) (tempAdc : UInt16) : ResParas :=
  setQualified (setVMeasure m.res (if m.adcSum ≥ tempAdc then m.adcSum - tempAdc else 0))

/-- `case 1` from the return of `rt_device_read` to the delay; a failed read (`none`) leaves
`temp_adc` as it was. -/
def readWeigh (m : Main) (adc : Option UInt16) : Main × List Effect :=
  let tempAdc := adc.getD m.tempAdc
  let res := m.measure tempAdc
  let info := addPorduct m.info res
  let stat := setMsgId m.stat
  -- the display and the cloud are told, the log is not
  ({ m with pc := .delay, tempAdc, adcSum := tempAdc, res, info, stat },
    [.pulse res.qualified, .output (sendDataMsg res info), .nb (sendNbMsg res stat)])

/-- `case 1` from the end of the delay to the first `ls1x_enable_gpio_interrupt`. -/
def wake (m : Main) : Main × List Effect :=
  if m.adcMeasureCount - 1 = 0 then
    ({ m with pc := .enable2Load, adcMeasureCount := m.adcMeasureCount - 1, ctrlFlow := 0 },
      [.pulse 0])
  else ({ m with pc := .enableLoad, adcMeasureCount := m.adcMeasureCount - 1 }, [.pulse 0])

end Main

/-! ### Whole iterations -/

/-- A message that `main` takes, with what it finds in the outside world while it handles it: the
word behind `r_buf`, and the answer of the ADC if it is read. -/
structure Delivery (τ : Type) where
  msg : MainMsg τ
  after : UInt32
  adc : Option UInt16

/-- One whole iteration of the loop, from `rt_mq_recv` back to `rt_mq_recv`. -/
def Main.handle {τ : Type} (m : Main) (d : Delivery τ) : Main :=
  let m := (m.recv d.msg d.after).1
  match m.pc with
  -- unmasking the pins changes nothing in the local state but the program point
  | .readWeigh => { (m.readWeigh d.adc).1.wake.1 with pc := .recv }
  | .readGrab => m.readGrab d.adc
  | _ => m

/-- What a whole iteration does outside, in program order. -/
def Main.handleEffects {τ : Type} (m : Main) (d : Delivery τ) : List Effect :=
  let r := m.recv d.msg d.after
  match r.1.pc with
  | .readWeigh =>
    let weighed := r.1.readWeigh d.adc
    r.2 ++ weighed.2 ++ weighed.1.wake.2
  | _ => r.2

/-- The iterations for a list of messages, in order. -/
def Main.handleAll {τ : Type} (m : Main) (ds : List (Delivery τ)) : Main := ds.foldl handle m

end SortingLine
