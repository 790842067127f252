import SortingLine.RtMq.Queue
import SortingLine.Touch.Samples

/-!
# The touch task and its message queue

`touchscreen_click_task` of `touch_utils.c`, as it is built for the LS1B under RT-Thread: a pass
begins when the interrupt of the pin has sent `TOUCH_CLICK_EVENT`, and the loop in it is left after
one round.  On the other side of `touch_msg_queue` is the loop of `simple_gui_task`, which takes the
messages and looks for the button under each.

The sums of `CALIBRATE_TOUCH_VALUES` are those of `int64_t`: with samples of 12 bits they stay below
`2 ^ 63`, so they are exact here.
-/

namespace SortingLine.Touch

/-- `TOUCH_CLICK_EVENT` -/
def touchClickEvent : UInt32 := 0x0100

/-- `TS_MESSAGE_MAX` -/
def tsMessageMax : ℕ := 16

/-- What `load_touch_calibrate_values` has set: `ts_cal_coords` and the size of the screen. -/
structure Config where
  tsCalCoords : Fin 7 → Int32
  pixelsx : Int32
  pixelsy : Int32

/-- `CALIBRATE_TOUCH_VALUES`: the second line uses the `_x` that the first one has set. -/
def calibrateTouchValues (tsCalCoords : Fin 7 → Int32) (x y : Int32) : Int32 × Int32 :=
  let c (i : Fin 7) : ℤ := (tsCalCoords i).toInt
  if 0 < tsCalCoords 6 then
    let x := Int32.ofInt ((c 0 + c 1 * x.toInt + c 2 * y.toInt).tdiv (c 6))
    let y := Int32.ofInt ((c 3 + c 4 * x.toInt + c 5 * y.toInt).tdiv (c 6))
    (x, y)
  else (x, y)

/-- The test before a click is reported. -/
def onScreen (cfg : Config) (p : Int32 × Int32) : Bool :=
  0 < p.1 && p.1 < cfg.pixelsx && 0 < p.2 && p.2 < cfg.pixelsy

/-! ### A pass -/

/-- What a pass finds: the event received, the pin after 100 ms, and the rounds of sampling. -/
structure Pass where
  recv : UInt32
  level : Bool
  rounds : ℕ → Round

/-- A message put on the queue, with what it was made of: the pass, the samples, and the coordinates
given to the calibration. -/
structure Report where
  pass : Pass
  samples : List TsMessage
  x : ℕ
  y : ℕ
  msg : TsMessage

/-- A pass of `touchscreen_click_task`: the message that it puts on the queue, if any. -/
def touchscreenClickTask (cfg : Config) (a : Pass) : Option Report :=
  if a.recv ≠ touchClickEvent then none
  else if !getTouchDown a.level then none
  else
    let (_, readed, samp) := readXyzCoords a.rounds true
    let (x, y, z) := measure readed samp
    -- `x`, `y` and `z` are 0 unless there are enough samples
    let p := if minSamples ≤ readed then
      calibrateTouchValues cfg.tsCalCoords (.ofNat x) (.ofNat y) else (0, 0)
    let z := if minSamples ≤ readed then z else 0
    if onScreen cfg p then
      some ⟨a, samp.take readed, x, y, ⟨p.1.toUInt32.toUInt16, p.2.toUInt32.toUInt16, z⟩⟩
    else none

/-! ### The queue -/

/-- The two bytes of an `unsigned short`, least significant first. -/
def shortBytes (w : UInt16) : List UInt8 := [UInt8.ofNat w.toNat, UInt8.ofNat (w.toNat / 256)]

/-- The `unsigned short` at an offset. -/
def shortAt (b : List UInt8) (i : ℕ) : UInt16 :=
  UInt16.ofNat ((b.getD i 0).toNat + 256 * (b.getD (i + 1) 0).toNat)

/-- A message in memory. -/
def TsMessage.bytes (m : TsMessage) : List UInt8 :=
  shortBytes m.x ++ shortBytes m.y ++ shortBytes m.z

/-- The message at the start of a buffer. -/
def readMessage (b : List UInt8) : TsMessage := ⟨shortAt b 0, shortAt b 2, shortAt b 4⟩

/-- `touch_msg_queue` -/
abbrev TouchQueue := RtMq (slotSize 6) tsMessageMax

/-- Sending a message: if that fails, the queue is cleared and the message sent again. -/
def sendMessage (mq : TouchQueue) (m : TsMessage) : TouchQueue :=
  let (err, mq) := mq.send m.bytes
  if err ≠ .eok then (mq.reset.send m.bytes).2 else mq

/-- The queue with the two tasks at its ends. -/
structure State where
  queue : TouchQueue
  /-- `msg` of `simple_gui_task` -/
  msg : List UInt8
  /-- What was put on the queue so far. -/
  reports : List Report
  /-- The points for which `simple_gui_task` has looked for a button. -/
  clicks : List (UInt16 × UInt16)

/-- Nothing is on the queue yet; the pool and `msg` hold anything. -/
def State.start (pool : Vector (Vector UInt8 (slotSize 6)) tsMessageMax) (msg : List UInt8) :
    State where
  queue := .create (pool.toList.map Vector.toList)
    (by simp only [List.mem_map]; rintro _ ⟨v, -, rfl⟩; exact v.length_toList) (by simp)
  msg := msg
  reports := []
  clicks := []

/-- Who moves: the touch task makes a pass, or `simple_gui_task` a round of its loop. -/
inductive Move
  | touch (a : Pass)
  | gui

/-- One move. -/
def step (cfg : Config) (s : State) : Move → Option State
  | .touch a =>
    match touchscreenClickTask cfg a with
    | none => some s
    | some r => some { s with queue := sendMessage s.queue r.msg, reports := s.reports ++ [r] }
  | .gui =>
    match s.queue.recv s.msg 6 with
    | none => some s
    | some (msg, queue) =>
      let m := readMessage msg
      some { s with queue, msg, clicks := s.clicks ++ [(m.x, m.y)] }

end SortingLine.Touch
