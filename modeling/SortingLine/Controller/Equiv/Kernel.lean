import SortingLine.Controller.Equiv.Messages

/-!
# The queues of the kernel

`Sys` keeps its messages in typed queues.  Here the four queues of the kernel are driven along a
run of `Sys` by the bytes that the code sends, from pools of arbitrary contents.  In every state of
every run they convey the typed queues (`conveys_of_reaches`): whatever a receiver's buffer held
before, its `switch` finds the message that `Sys` hands it (`reads_of_reaches`).
-/

namespace SortingLine.Wire

variable {s s' : Sys} {a : Label} {tempAdc : UInt16} {disk : Disk} {tr : List (Sys × Label)}

/-! ### The bytes of a message -/

/-- The bytes of a display message, as its sender makes them. -/
def outBytes : OutMsg → List UInt8
  | .data vMeasure qualified total qualifiedAmount =>
    sendDataMsg ⟨vMeasure, 0, qualified⟩ ⟨total, qualifiedAmount, 0, 0, 0⟩
  | .threshold v => sendVThresholdMsg ⟨0, v, 0⟩
  | .rtc year mon day => sendRtcMsg ⟨0, 0, year, mon, day⟩
  | .productInfo total qualifiedAmount => sendProductInfoMsg ⟨total, qualifiedAmount, 0, 0, 0⟩
  | .csq v => sendCsq ⟨v, 0⟩
  | .msgId v => sendMsgIdMsg ⟨0, v⟩

theorem carriesOut_outBytes (m : OutMsg) : CarriesOut m (outBytes m) := by
  cases m with
  | data vMeasure qualified total qualifiedAmount =>
    exact (carries_output ⟨vMeasure, 0, qualified⟩ ⟨total, qualifiedAmount, 0, 0, 0⟩ initStat).1
  | threshold v => exact (carries_output ⟨0, v, 0⟩ initInfo initStat).2.1
  | rtc year mon day => exact (carries_output initRes ⟨0, 0, year, mon, day⟩ initStat).2.2.1
  | productInfo total qualifiedAmount =>
    exact (carries_output initRes ⟨total, qualifiedAmount, 0, 0, 0⟩ initStat).2.2.2.1
  | csq v => exact (carries_output initRes initInfo ⟨v, 0⟩).2.2.2.2.1
  | msgId v => exact (carries_output initRes initInfo ⟨0, v⟩).2.2.2.2.2

/-- What a message makes the file thread do to the disk. -/
def fileAction (m : FileMsg) (d : Disk) : Disk := d.handle m

/-- The bytes of a message for the file thread, as its sender makes them. -/
def fileBytes : FileMsg → List UInt8
  | .info total qualifiedAmount => sendInfoToFileMsg ⟨total, qualifiedAmount, 0, 0, 0⟩
  | .date year mon day => sendDateToFileMsg ⟨0, 0, year, mon, day⟩

theorem carriesFile_fileBytes (m : FileMsg) : CarriesFile m (fileBytes m) := by
  cases m with
  | info total qualifiedAmount => exact (carries_file ⟨total, qualifiedAmount, 0, 0, 0⟩).1
  | date year mon day => exact (carries_file ⟨0, 0, year, mon, day⟩).2

/-- The bytes of a record for the NB thread, as `send_nb_msg` makes them. -/
def nbBytes (x : NbRecord) : List UInt8 :=
  sendNbMsg ⟨x.vMeasure, x.vThreshold, x.qualified⟩ ⟨0, x.msgId⟩

/-- The `switch` of `nb_comm`: what it does to the publish command; `none` is its `default`. -/
def nbSwitch (mqbuf : List UInt8) : Option (List UInt8 → List UInt8) :=
  match (wordAt mqbuf 0).toNat with
  | 1 => some fun cmd => setAtCmd cmd mqbuf
  | _ => none

/-- What a record makes the NB thread do to the publish command; its number is not sent. -/
def nbAction (x : NbRecord × Nat) (cmd : List UInt8) : List UInt8 := setAtCmd cmd (nbBytes x.1)

/-- The bytes make the NB thread put the digits of the record into the command. -/
abbrev CarriesNb (x : NbRecord × Nat) (b : List UInt8) : Prop :=
  RtMq.Carries (slotSize 20) nbSwitch 24 (nbAction x) b ∧ b.length ≤ slotSize 20

/-- `set_at_cmd` reads the first 16 bytes only. -/
theorem setAtCmd_of_front {b mqbuf : List UInt8} (h : b <+: mqbuf) (hb : b.length = 16)
    (cmd : List UInt8) : setAtCmd cmd mqbuf = setAtCmd cmd b := by
  have hread : ∀ f ∈ atCmdFields, mqbuf.getD f.2 0 = b.getD f.2 0 := by
    intro f hf
    have hlt : f.2 < 16 := by revert f; decide
    exact getD_of_front h (by omega)
  unfold setAtCmd
  refine List.foldl_ext _ _ _ fun a f hf => ?_
  rw [hread f hf]

theorem carriesNb_nbBytes (x : NbRecord × Nat) : CarriesNb x (nbBytes x.1) := by
  refine ⟨fun mqbuf hb => ?_, by simp [nbBytes, sendNbMsg]⟩
  have hlen : (nbBytes x.1).length = 16 := by simp [nbBytes, sendNbMsg]
  have hpre : nbBytes x.1 <+: mqbuf := by
    rwa [List.take_of_length_le (by simp [hlen])] at hb
  have hfront : words [1] <+: mqbuf := (List.prefix_append _ _).trans hpre
  have hcode : wordAt mqbuf 0 = 1 := wordAt_of_front hfront (by simp)
  simp only [nbSwitch, hcode]
  show some _ = some _
  rw [Option.some.injEq]
  funext cmd
  exact setAtCmd_of_front hpre hlen cmd

/-! ### The queues -/

/-- The four queues of the kernel. -/
structure Kernel where
  mainMq : RtMq (slotSize 20) 6
  outputDatasMq : RtMq (slotSize 20) 4
  fileWriteMq : RtMq (slotSize 24) 2
  nbiotMq : RtMq (slotSize 20) 2

namespace Kernel

/-- New queues. -/
structure Fresh (k : Kernel) : Prop where
  mainMq : k.mainMq.queue = []
  outputDatasMq : k.outputDatasMq.queue = []
  fileWriteMq : k.fileWriteMq.queue = []
  nbiotMq : k.nbiotMq.queue = []

/-- The two display messages sent before the loop. -/
def boot (k : Kernel) : Kernel :=
  { k with
    outputDatasMq := k.outputDatasMq.sendAll [sendVThresholdMsg initRes, sendRtcMsg initInfo] }

/-- What a step of the system does to the queues. -/
def step (k : Kernel) (x : Sys × Label) : Kernel :=
  { mainMq := (if Sys.isMainRecv x.2 = true then k.mainMq.pop else k.mainMq).sendAll
      (postedBytes x.1 x.2).toList
    outputDatasMq := (if x.2 = .flushRecv then k.outputDatasMq.pop else k.outputDatasMq).sendAll
      ((Sys.outputs (Sys.effects x)).map outBytes)
    fileWriteMq := (if x.2 = .fileRecv then k.fileWriteMq.pop else k.fileWriteMq).sendAll
      ((Sys.fileMsgs (Sys.effects x)).map fileBytes)
    nbiotMq := (if x.2 = .nbRecv then k.nbiotMq.pop else k.nbiotMq).sendAll
      ((Sys.nbRecords (Sys.effects x)).map nbBytes) }

/-- The queues after a run. -/
def run (k : Kernel) (tr : List (Sys × Label)) : Kernel := tr.foldl step k.boot

/-- The queues convey the messages of the typed queues. -/
structure Conveys (k : Kernel) (s : Sys) : Prop where
  mainMq : k.mainMq.Conveys mainSwitch 20 (s.mainMq.map erase)
  outputDatasMq : k.outputDatasMq.Conveys flushSwitch 20 s.outputDatasMq
  fileWriteMq : k.fileWriteMq.Conveys fileDecode 24 (s.fileWriteMq.map fileAction)
  nbiotMq : k.nbiotMq.Conveys nbSwitch 24 (s.nbiotMq.map nbAction)

end Kernel

/-- The buffer that the file thread reports from has the 24 bytes of `rt_mq_lbuf`. -/
theorem length_report_of_reaches (h : Sys.Reaches tempAdc disk tr s) :
    ∀ rbuf, s.file = .report rbuf → rbuf.length = 24 := by
  refine h.invariant (I := fun s => ∀ rbuf, s.file = .report rbuf → rbuf.length = 24)
    (fun _ h => by cases h) fun s a s' hI ha => ?_
  by_cases hm : Sys.mover a = .file
  · replace ha := Sys.step_spec ha
    cases a with
    | fileStart =>
      obtain ⟨-, ⟨-, rfl⟩ | ⟨-, -, rfl⟩ | ⟨-, -, rfl⟩⟩ := ha <;> exact fun _ h => by cases h
    | fileBlank => obtain ⟨-, rfl⟩ := ha; exact fun _ h => by cases h
    | fileRead rbuf =>
      obtain ⟨-, rfl⟩ := ha
      rintro _ ⟨⟩
      exact Disk.length_fileRead (by simp)
    | fileReport => obtain ⟨_, -, rfl⟩ := ha; exact fun _ h => by cases h
    | fileRecv => obtain ⟨_, _, -, -, rfl⟩ := ha; exact fun _ h => by cases h
    | fileWrite => obtain ⟨_, -, rfl⟩ := ha; exact fun _ h => by cases h
    | _ => cases hm
  · rw [(Sys.step_frame ha).file hm]
    exact hI

variable {k : Kernel}

theorem Kernel.Fresh.conveys_boot (hk : k.Fresh) :
    k.boot.Conveys (Sys.start tempAdc disk) := by
  refine ⟨RtMq.conveys_of_queue_nil hk.mainMq, ?_, RtMq.conveys_of_queue_nil hk.fileWriteMq,
    RtMq.conveys_of_queue_nil hk.nbiotMq⟩
  have hms : List.Forall₂ CarriesOut
      [SortingLine.sendVThresholdMsg initRes, SortingLine.sendRtcMsg initInfo]
      [sendVThresholdMsg initRes, sendRtcMsg initInfo] :=
    .cons (carries_output initRes initInfo initStat).2.1
      (.cons (carries_output initRes initInfo initStat).2.2.1 .nil)
  exact RtMq.conveys_sendAll (RtMq.conveys_of_queue_nil hk.outputDatasMq) hms

theorem step_conveys (hk : k.Conveys s) (hlen : ∀ rbuf, s.file = .report rbuf → rbuf.length = 24)
    (h : s.step a = some s') : (k.step (s, a)).Conveys s' := by
  constructor
  · refine RtMq.conveys_moves hk.mainMq ((Sys.moves_mainMq h).map erase) ?_
    have hp := carries_posted s a hlen
    revert hp
    cases Sys.posted s a <;> cases postedBytes s a <;> rintro ⟨⟩
    · exact .nil
    · exact .cons ‹_› .nil
  · refine RtMq.conveys_moves hk.outputDatasMq (Sys.moves_outputDatasMq h) ?_
    rw [List.forall₂_map_right_iff, List.forall₂_same]
    exact fun m _ => carriesOut_outBytes m
  · refine RtMq.conveys_moves hk.fileWriteMq ((Sys.moves_fileWriteMq h).map fileAction) ?_
    rw [List.forall₂_map_left_iff, List.forall₂_map_right_iff, List.forall₂_same]
    exact fun m _ => carriesFile_fileBytes m
  · have hfst (rs : List NbRecord) :
        rs.map nbBytes = (rs.zipIdx (s.weighed + 1)).map (nbBytes ∘ Prod.fst) := by
      rw [← List.map_map, List.zipIdx_map_fst]
    have hm := (Sys.moves_nbiotMq h).map nbAction
    refine RtMq.conveys_moves hk.nbiotMq hm ?_
    rw [hfst, List.forall₂_map_left_iff, List.forall₂_map_right_iff, List.forall₂_same]
    exact fun x _ => carriesNb_nbBytes x

/-- **The queues of the kernel convey those of the model** in every state of every run. -/
theorem conveys_of_reaches (hk : k.Fresh) (h : Sys.Reaches tempAdc disk tr s) :
    (k.run tr).Conveys s := by
  induction h with
  | start => exact hk.conveys_boot
  | next hr ha ih =>
    rw [Kernel.run, List.foldl_append]
    exact step_conveys ih (length_report_of_reaches hr) ha

/-- **What a receiver reads is what the model hands it**, in every state of every run and whatever
its buffer held before. -/
theorem reads_of_reaches (hk : k.Fresh) (h : Sys.Reaches tempAdc disk tr s) :
    (∀ m, s.mainMq.items.head? = some m → (k.run tr).mainMq.Reads mainSwitch 20 (erase m)) ∧
    (∀ m, s.outputDatasMq.items.head? = some m → (k.run tr).outputDatasMq.Reads flushSwitch 20 m) ∧
    (∀ m, s.fileWriteMq.items.head? = some m →
      (k.run tr).fileWriteMq.Reads fileDecode 24 (fileAction m)) ∧
    (∀ x, s.nbiotMq.items.head? = some x → (k.run tr).nbiotMq.Reads nbSwitch 24 (nbAction x)) := by
  have hc := conveys_of_reaches hk h
  refine ⟨fun m hm => RtMq.reads_of_conveys hc.mainMq ?_,
    fun m hm => RtMq.reads_of_conveys hc.outputDatasMq hm,
    fun m hm => RtMq.reads_of_conveys hc.fileWriteMq ?_,
    fun x hx => RtMq.reads_of_conveys hc.nbiotMq ?_⟩
  · rw [BQueue.items_map, List.head?_map, hm]
    rfl
  · rw [BQueue.items_map, List.head?_map, hm]
    rfl
  · rw [BQueue.items_map, List.head?_map, hx]
    rfl

end SortingLine.Wire
