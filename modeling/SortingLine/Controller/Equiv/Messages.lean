import SortingLine.Controller.Equiv.FileLog
import SortingLine.Controller.Equiv.System
import SortingLine.Controller.Messages
import SortingLine.RtMq.Equiv.Typed

/-!
# What the receivers read

The bytes of each sender carry the typed message of the same name, whatever the slot and the
receiver's buffer held before: `carries_posted` for `main_mq`, `carries_output` for the display and
`carries_file` for the log.  With `RtMq.conveys_send` and `RtMq.recv_conveys` the queues of the
kernel then behave as the typed queues of `Sys`.

`restoredInfo_eq` follows the totals and the date through a power cycle: all fields come back but
the day, which `main` reads behind its buffer.
-/

namespace SortingLine

/-! ### Words at the front of a buffer -/

theorem wordAt_of_front {ws : List UInt32} {b : List UInt8} (h : words ws <+: b) {i : Nat}
    (hi : i < ws.length) : wordAt b i = ws.getD i 0 := by
  obtain ⟨t, rfl⟩ := h
  exact wordAt_words_append ws t hi

theorem getD_of_front {b c : List UInt8} (h : b <+: c) {k : Nat} (hk : k < b.length) :
    c.getD k 0 = b.getD k 0 := by
  obtain ⟨t, rfl⟩ := h
  exact List.getD_append _ _ _ _ hk

/-- A buffer that starts with the first bytes of `b` has its first words. -/
theorem wordAt_of_take_front {b c : List UInt8} {n : Nat} (h : b.take n <+: c) {i : Nat}
    (hn : 4 * i + 4 ≤ n) (hb : 4 * i + 4 ≤ b.length) : wordAt c i = wordAt b i := by
  refine wordAt_congr fun k hk hk' => ?_
  rw [getD_of_front h (by rw [List.length_take]; omega)]
  simp [List.getD_eq_getElem?_getD, show k < n by omega]

namespace Wire

/-! ### Messages for the flush task -/

/-- The bytes carry `m` to the flush task. -/
abbrev CarriesOut (m : OutMsg) (b : List UInt8) : Prop :=
  RtMq.Carries (slotSize 20) flushSwitch 20 m b ∧ b.length ≤ slotSize 20

theorem carriesOut_words {ws : List UInt32} {m : OutMsg} (hlen : ws.length ≤ 5)
    (h : ∀ b, (∀ i < ws.length, wordAt b i = ws.getD i 0) → flushSwitch b = some m) :
    CarriesOut m (words ws) := by
  refine ⟨fun buffer hb => h buffer fun i hi => wordAt_of_front ?_ hi, ?_⟩
  · rwa [List.take_of_length_le] at hb
    simp
    omega
  · simp
    omega

/-- The six senders of display messages. -/
theorem carries_output (r : ResParas) (p : ProductInfo) (t : TrStat) :
    CarriesOut (SortingLine.sendDataMsg r p) (sendDataMsg r p) ∧
    CarriesOut (SortingLine.sendVThresholdMsg r) (sendVThresholdMsg r) ∧
    CarriesOut (SortingLine.sendRtcMsg p) (sendRtcMsg p) ∧
    CarriesOut (SortingLine.sendProductInfoMsg p) (sendProductInfoMsg p) ∧
    CarriesOut (SortingLine.sendCsq t) (sendCsq t) ∧
    CarriesOut (SortingLine.sendMsgIdMsg t) (sendMsgIdMsg t) := by
  refine ⟨?_, ?_, ?_, ?_, ?_, ?_⟩ <;> refine carriesOut_words (by simp) fun b hb => ?_
  · simp [flushSwitch, hb 0, hb 1, hb 2, hb 3, hb 4, SortingLine.sendDataMsg]
  · simp [flushSwitch, hb 0, hb 1, SortingLine.sendVThresholdMsg]
  · simp [flushSwitch, hb 0, hb 1, hb 2, hb 3, SortingLine.sendRtcMsg]
  · simp [flushSwitch, hb 0, hb 1, hb 2, SortingLine.sendProductInfoMsg]
  · simp [flushSwitch, hb 0, hb 1, SortingLine.sendCsq]
  · simp [flushSwitch, hb 0, hb 1, SortingLine.sendMsgIdMsg]

/-! ### Messages for the file thread -/

/-- What the file thread does with the message in its buffer. -/
def fileDecode (rbuf : List UInt8) : Option (Disk → Disk) := some fun d => fileSwitch d rbuf

/-- The bytes make the file thread do what it does with `m`. -/
abbrev CarriesFile (m : FileMsg) (b : List UInt8) : Prop :=
  RtMq.Carries (slotSize 24) fileDecode 24 (fun d => d.handle m) b ∧ b.length ≤ slotSize 24

/-- The two senders of messages for the log. -/
theorem carries_file (p : ProductInfo) :
    CarriesFile (SortingLine.sendInfoToFileMsg p) (sendInfoToFileMsg p) ∧
    CarriesFile (SortingLine.sendDateToFileMsg p) (sendDateToFileMsg p) := by
  refine ⟨⟨fun rbuf hb => ?_, by simp [sendInfoToFileMsg]⟩,
    ⟨fun rbuf hb => ?_, by simp [sendDateToFileMsg]⟩⟩
  · have hpre : words [1, p.total, p.qualifiedAmount] <+: rbuf := hb
    have h0 : wordAt rbuf 0 = 1 := wordAt_of_front hpre (by simp)
    obtain ⟨stale, rfl⟩ := hpre
    have hw : (patch (words [1, p.total, p.qualifiedAmount] ++ stale) 0 (words [3])).take 12
        = words [3, p.total, p.qualifiedAmount] := by
      simp [patch, wordBytes]
    simp only [fileDecode, fileSwitch, h0, hw]
    rfl
  · have hpre : words [2, p.year, p.mon, p.day] <+: rbuf := hb
    have h0 : wordAt rbuf 0 = 2 := wordAt_of_front hpre (by simp)
    obtain ⟨stale, rfl⟩ := hpre
    have hw : ((words [2, p.year, p.mon, p.day] ++ stale).drop 4).take 12
        = words [p.year, p.mon, p.day] := by
      simp [wordBytes]
    simp only [fileDecode, fileSwitch, h0, hw]
    rfl

/-! ### Messages for `main` -/

/-- The message without its history value, which is not sent. -/
def erase {τ : Type} : MainMsg τ → MainMsg Unit
  | .weigh => .weigh
  | .blankLog => .blankLog
  | .restore total qualifiedAmount year mon => .restore total qualifiedAmount year mon
  | .csq c₄ c₅ => .csq c₄ c₅
  | .date d => .date d
  | .thresholdUp => .thresholdUp
  | .thresholdDown => .thresholdDown
  | .published _ => .published ()
  | .grabbed => .grabbed

/-- The bytes carry `m` to `main`. -/
abbrev CarriesMain {τ : Type} (m : MainMsg τ) (b : List UInt8) : Prop :=
  RtMq.Carries (slotSize 20) mainSwitch 20 (erase m) b ∧ b.length ≤ slotSize 20

/-- The bytes that a step sends on `main_mq`. -/
def postedBytes (s : Sys) : Label → Option (List UInt8)
  | .edge .inputSignal => some inputInterruptIsr
  | .edge .inputSignal2 => some inputInterruptIsr2
  | .onclick up => some (sendBtnMsg up)
  | .fileReport => match s.file with | .report rbuf => some (sendFileMsg rbuf) | _ => none
  | .nbCsq answer => answer.map fun c => nbGetCsq c.1 c.2
  | .nbTime answer => answer.map nbGetTime
  | .nbDone success =>
    match s.nb with | .publish _ => if success then some sendNbConnMsg else none | _ => none
  | .touchLoad | .touchStore | .mainRecv _ | .mainRead _ | .mainWake | .mainLoad | .mainStore
  | .flushRecv | .flushDraw | .fileStart _ | .fileBlank | .fileRead _ | .fileRecv | .fileWrite
  | .nbStart _ | .nbRecv => none

/-- A message that is its code alone. -/
theorem carriesMain_code {τ : Type} {m : MainMsg τ} {code : UInt32}
    (h : ∀ b, wordAt b 0 = code → mainSwitch b = some (erase m)) :
    CarriesMain m (words [code]) := by
  refine ⟨fun buffer hb => h buffer ?_, by simp⟩
  have hpre : words [code] <+: buffer := hb
  exact wordAt_of_front hpre (by simp)

/-- `send_file_msg`, with the 24 bytes of `rt_mq_lbuf`. -/
theorem carriesMain_sendFileMsg {τ : Type} {rbuf : List UInt8} (hlen : rbuf.length = 24) :
    CarriesMain (SortingLine.sendFileMsg rbuf : MainMsg τ) (sendFileMsg rbuf) := by
  rw [SortingLine.sendFileMsg, sendFileMsg]
  split_ifs with h0
  · exact carriesMain_code fun b hb => by simp [mainSwitch, hb, erase]
  · refine ⟨fun buffer hb => ?_, by simp [length_patch, hlen]⟩
    -- the first five words of the slot reach `main`, the code in place of the flag
    have hword (i : Nat) (hi : i < 5) :
        wordAt buffer i = if i < 1 then 3 else wordAt rbuf i := by
      have hw := wordAt_patch_words rbuf 0 [3] i
      rw [wordAt_of_take_front hb (by simp; omega) (by simp [length_patch, hlen]; omega)]
      refine hw.trans ?_
      rcases i with _ | i <;> simp
    have h3 : wordAt buffer 0 = 3 := hword 0 (by omega)
    simp only [mainSwitch, h3]
    simp [hword, erase]

theorem mainSwitch_date {d : Vector UInt8 8} {buffer : List UInt8}
    (h : words [5] ++ d.toList <+: buffer) : mainSwitch buffer = some (.date d) := by
  have hcode : wordAt buffer 0 = 5 :=
    wordAt_of_front ((List.prefix_append (words [5]) d.toList).trans h) (by simp)
  have hd : (Vector.ofFn fun i : Fin 8 => buffer.getD (4 + i) 0) = d := by
    ext i hi
    rw [Vector.getElem_ofFn, getD_of_front h (by simp; omega),
      List.getD_append_right _ _ _ _ (by simp)]
    simp [List.getD_eq_getElem?_getD, hi]
  simp only [mainSwitch, hcode, hd]
  rfl

/-- **Every message sent on `main_mq` reaches `main` as its typed message**, if the file thread
reports from a buffer of 24 bytes. -/
theorem carries_posted (s : Sys) (a : Label)
    (hlen : ∀ rbuf, s.file = .report rbuf → rbuf.length = 24) :
    Option.Rel CarriesMain (Sys.posted s a) (postedBytes s a) := by
  cases a with
  | edge p =>
    cases p <;> exact .some (carriesMain_code fun b hb => by simp [mainSwitch, hb, erase])
  | onclick up =>
    cases up <;> exact .some (carriesMain_code fun b hb => by simp [mainSwitch, hb, erase])
  | fileReport =>
    simp only [Sys.posted, postedBytes]
    cases hf : s.file with
    | report rbuf => exact .some (carriesMain_sendFileMsg (hlen rbuf hf))
    | _ => exact .none
  | nbCsq answer =>
    cases answer with
    | none => exact .none
    | some c =>
      refine .some ⟨fun buffer hb => ?_, by simp [nbGetCsq]⟩
      obtain ⟨stale, rfl⟩ : words [4] ++ [c.1, c.2] <+: buffer := hb
      rfl
  | nbTime answer =>
    cases answer with
    | none => exact .none
    | some d =>
      refine .some ⟨fun buffer hb => ?_, by simp [nbGetTime]⟩
      have hpre : words [5] ++ d.toList <+: buffer := by
        rwa [List.take_of_length_le (by simp [nbGetTime])] at hb
      exact mainSwitch_date hpre
  | nbDone success =>
    simp only [Sys.posted, postedBytes]
    cases hn : s.nb with
    | publish x =>
      cases success with
      | false => exact .none
      | true => exact .some (carriesMain_code fun b hb => by simp [mainSwitch, hb, erase])
    | _ => exact .none
  | _ => exact .none

/-! ### A power cycle -/

section PowerCycle

variable {p : ProductInfo} {fileWriteMq : RtMq (slotSize 24) 2} {d : Disk}
  {mainMq : RtMq (slotSize 20) 6} {rbuf rbuf' : Vector UInt8 24} {rBuf : Vector UInt8 20}
  {after : UInt32}

/-- The log after both messages: all six words. -/
theorem wordAt_log_handle_both (p : ProductInfo) {i : Nat} (hi : i < 6) :
    wordAt ((d.handle (SortingLine.sendInfoToFileMsg p)).handle
      (SortingLine.sendDateToFileMsg p)).log i
      = [3, p.total, p.qualifiedAmount, p.year, p.mon, p.day].getD i 0 := by
  rw [SortingLine.sendInfoToFileMsg, SortingLine.sendDateToFileMsg, Disk.wordAt_log_handle_date,
    Disk.wordAt_log_handle_info]
  have : i = 0 ∨ i = 1 ∨ i = 2 ∨ i = 3 ∨ i = 4 ∨ i = 5 := by omega
  rcases this with rfl | rfl | rfl | rfl | rfl | rfl <;> rfl

/-- What the file thread reports after a restart. -/
theorem sendFileMsg_handle_both (p : ProductInfo) (rbuf : List UInt8) :
    (SortingLine.sendFileMsg (((d.handle (SortingLine.sendInfoToFileMsg p)).handle
      (SortingLine.sendDateToFileMsg p)).fileRead rbuf 24) : MainMsg Unit)
      = .restore p.total p.qualifiedAmount p.year p.mon := by
  have hlen : 24 ≤ ((d.handle (SortingLine.sendInfoToFileMsg p)).handle
      (SortingLine.sendDateToFileMsg p)).log.length := by
    rw [Disk.length_log_handle]
    exact Nat.le_max_right _ _
  have hword (i : Nat) (hi : i < 6) := (Disk.wordAt_fileRead rbuf hi (by omega)).trans
    (wordAt_log_handle_both (d := d) p hi)
  rw [SortingLine.sendFileMsg, hword 0 (by omega), hword 1 (by omega), hword 2 (by omega),
    hword 3 (by omega), hword 4 (by omega)]
  rfl

/-- **What a power cycle makes of the statistics**: everything comes back but the day. -/
theorem restoredInfo_eq (hf : fileWriteMq.queue = []) (hm : mainMq.queue.length < 6) :
    restoredInfo p fileWriteMq rbuf d rbuf' mainMq rBuf after = some { p with day := after } := by
  -- both messages are in `file_write_mq`
  have h₁ := RtMq.conveys_send (RtMq.conveys_of_queue_nil hf) (carries_file p).1.2
    (carries_file p).1.1
  have h₂ := RtMq.conveys_send h₁ (carries_file p).2.2 (carries_file p).2.1
  -- the file thread takes one after the other
  obtain ⟨b₁, mq₁, fs₁, hr₁, hc₁, hfs₁, hd₁⟩ := RtMq.exists_recv_of_conveys rbuf.toList h₂ rfl
  obtain ⟨b₂, mq₂, -, hr₂, -, -, hd₂⟩ := RtMq.exists_recv_of_conveys b₁ hc₁ hfs₁
  have hs₁ : ∀ d, fileSwitch d b₁ = d.handle (SortingLine.sendInfoToFileMsg p) :=
    congrFun (Option.some.inj hd₁)
  have hs₂ : ∀ d, fileSwitch d b₂ = d.handle (SortingLine.sendDateToFileMsg p) :=
    congrFun (Option.some.inj hd₂)
  -- after the restart its report finds a slot in `main_mq`, and `main` gets to it
  have hreport := sendFileMsg_handle_both (d := d) p rbuf'.toList
  generalize hd' : (d.handle (SortingLine.sendInfoToFileMsg p)).handle
    (SortingLine.sendDateToFileMsg p) = d' at hreport
  have hcarry : CarriesMain (SortingLine.sendFileMsg (d'.fileRead rbuf'.toList 24) : MainMsg Unit)
      (sendFileMsg (d'.fileRead rbuf'.toList 24)) :=
    carriesMain_sendFileMsg (Disk.length_fileRead (by simp))
  obtain ⟨b₃, mq₃, hr₃, hpre⟩ := RtMq.exists_recv_iterate_pop rBuf.toList hm hcarry.2
  have hd₃ := hcarry.1 b₃ hpre
  rw [hreport] at hd₃
  simp only [restoredInfo, hr₁, hr₂, hs₁, hs₂, hd', hr₃, hd₃, Option.bind_eq_bind,
    Option.bind_some, erase]
  rfl

/-- **When a power cycle restores the statistics**: exactly when the word behind the buffer of
`main` happens to be the day.  The other four fields always come back. -/
theorem restoredInfo_eq_self_iff (hf : fileWriteMq.queue = []) (hm : mainMq.queue.length < 6) :
    restoredInfo p fileWriteMq rbuf d rbuf' mainMq rBuf after = some { p with day := after } ∧
    (restoredInfo p fileWriteMq rbuf d rbuf' mainMq rBuf after = some p ↔ after = p.day) := by
  have h : restoredInfo p fileWriteMq rbuf d rbuf' mainMq rBuf after
      = some { p with day := after } := restoredInfo_eq hf hm
  refine ⟨h, ?_⟩
  rw [h, Option.some.injEq]
  constructor
  · intro he
    exact congrArg ProductInfo.day he
  · rintro rfl
    rfl

/-- The pool of a new queue, with the slots all zero. -/
def zeroMq (maxMsgs : Nat) (msgSize : UInt32) : RtMq (slotSize msgSize) maxMsgs :=
  .create (List.replicate maxMsgs (List.replicate (slotSize msgSize) 0)) (by simp) (by simp)

/-- The 13th comes back if the word behind the buffer is 13. -/
theorem restoredInfo_lucky : restoredInfo ⟨120, 117, 2022, 7, 13⟩ (zeroMq 2 24) (.replicate 24 0)
    ⟨true, none⟩ (.replicate 24 0) (zeroMq 6 20) (.replicate 20 0) 13
      = some ⟨120, 117, 2022, 7, 13⟩ :=
  (restoredInfo_eq_self_iff rfl (by decide)).2.mpr rfl

/-- With a zero behind the buffer the day is lost. -/
theorem restoredInfo_day_lost : restoredInfo ⟨120, 117, 2022, 7, 13⟩ (zeroMq 2 24)
    (.replicate 24 0) ⟨true, none⟩ (.replicate 24 0) (zeroMq 6 20) (.replicate 20 0) 0
      = some ⟨120, 117, 2022, 7, 0⟩ ∧
    (⟨120, 117, 2022, 7, 0⟩ : ProductInfo) ≠ ⟨120, 117, 2022, 7, 13⟩ :=
  ⟨restoredInfo_eq rfl (by decide), by decide⟩

end PowerCycle

end Wire

end SortingLine
