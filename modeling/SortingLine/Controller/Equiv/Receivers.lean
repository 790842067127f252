import SortingLine.Controller.Equiv.Kernel

/-!
# What a receiver depends on

A sender copies its message into a slot that still holds older bytes, and a receiver copies a fixed
number of bytes of the slot into its buffer.  `received` is the memory from the buffer on after
that, and `Mq.handle` what the receiver then does.  Two receivers go too far: `main` reads a word
behind its buffer for code 3, and `nb_comm` asks for four bytes more than its buffer has.  Nothing
else that is sent can be told apart from its bytes (`handle_received_iff`).
-/

namespace SortingLine

namespace Mq

/-- The size given to `rt_mq_create`. -/
def msgSize : Mq → UInt32
  | .mainMq | .outputDatasMq | .nbiotMq => 20
  | .fileWriteMq => 24

/-- The size given to `rt_mq_recv`. -/
def recvSize : Mq → Nat
  | .mainMq | .outputDatasMq => 20
  | .fileWriteMq | .nbiotMq => 24

/-- The size of the buffer given to `rt_mq_recv`: an `rt_mq_buf`, or the `rt_mq_lbuf` of the file
thread. -/
def bufSize : Mq → Nat
  | .mainMq | .outputDatasMq | .nbiotMq => 20
  | .fileWriteMq => 24

/-- The number of bytes that `rt_mq_recv` copies. -/
def copied (q : Mq) : Nat := min q.recvSize (slotSize q.msgSize)

/-- They fit in the buffer. -/
def Fits (q : Mq) : Prop := q.copied ≤ q.bufSize

instance : DecidablePred Fits := fun _ => inferInstanceAs (Decidable (_ ≤ _))

/-- What the receiver works on: the local state of `main`, the table on the screen, the disk, the
publish command. -/
def State : Mq → Type
  | .mainMq => Main
  | .outputDatasMq => Grid
  | .fileWriteMq => Disk
  | .nbiotMq => List UInt8

/-- What the receiver makes of it: `main` has effects too, and the NB thread may have nothing to
publish. -/
def Result : Mq → Type
  | .mainMq => Main × List Effect
  | .outputDatasMq => Grid
  | .fileWriteMq => Disk
  | .nbiotMq => Option (List UInt8)

end Mq

namespace Wire

/-- The `switch` of the receiver; `mem` is the memory from its buffer on. -/
def handle : (q : Mq) → List UInt8 → q.State → q.Result
  | .mainMq, mem, (m : Main) =>
    match mainSwitch mem with
    -- `val_arr[5]` is the word behind the five words of `r_buf`
    | some msg => m.recv msg (wordAt mem 5)
    | none => (m, [])
  | .outputDatasMq, mem, (g : Grid) =>
    match flushSwitch mem with
    | some msg => g.draw msg
    | none => g
  | .fileWriteMq, mem, (d : Disk) => fileSwitch d mem
  | .nbiotMq, mem, (cmd : List UInt8) => (nbSwitch mem).map fun set => set cmd

/-- The messages of the senders. -/
inductive Sent : Mq → List UInt8 → Prop
  | inputInterruptIsr : Sent .mainMq inputInterruptIsr
  | inputInterruptIsr2 : Sent .mainMq inputInterruptIsr2
  | sendFileMsg (rbuf : Vector UInt8 24) : Sent .mainMq (sendFileMsg rbuf.toList)
  | nbGetCsq (c₄ c₅ : UInt8) : Sent .mainMq (nbGetCsq c₄ c₅)
  | nbGetTime (d : Vector UInt8 8) : Sent .mainMq (nbGetTime d)
  | sendBtnMsg (up : Bool) : Sent .mainMq (sendBtnMsg up)
  | sendNbConnMsg : Sent .mainMq sendNbConnMsg
  | sendDataMsg (r : ResParas) (p : ProductInfo) : Sent .outputDatasMq (sendDataMsg r p)
  | sendVThresholdMsg (r : ResParas) : Sent .outputDatasMq (sendVThresholdMsg r)
  | sendRtcMsg (p : ProductInfo) : Sent .outputDatasMq (sendRtcMsg p)
  | sendProductInfoMsg (p : ProductInfo) : Sent .outputDatasMq (sendProductInfoMsg p)
  | sendCsq (t : TrStat) : Sent .outputDatasMq (sendCsq t)
  | sendMsgIdMsg (t : TrStat) : Sent .outputDatasMq (sendMsgIdMsg t)
  | sendInfoToFileMsg (p : ProductInfo) : Sent .fileWriteMq (sendInfoToFileMsg p)
  | sendDateToFileMsg (p : ProductInfo) : Sent .fileWriteMq (sendDateToFileMsg p)
  | sendNbMsg (r : ResParas) (t : TrStat) : Sent .nbiotMq (sendNbMsg r t)

/-- The memory `mem` from the receiver's buffer on, after it received the message `msg` that was
sent in the slot `slot`. -/
def received (q : Mq) (msg slot mem : List UInt8) : List UInt8 :=
  patch mem 0 ((patch slot 0 msg).take q.copied)

variable {q : Mq} {msg slot mem : List UInt8}

/-- This is what the kernel does with a message that finds an empty queue. -/
theorem recv_send_eq_received {maxMsgs : Nat} {mq : RtMq (slotSize q.msgSize) maxMsgs}
    {free : List (List UInt8)} (hq : mq.queue = []) (hf : mq.free = slot :: free)
    (hlen : msg.length ≤ slotSize q.msgSize) (mem : List UInt8) :
    ∃ mq', (mq.send msg).2.recv mem q.recvSize = some (received q msg slot mem, mq') := by
  have hs := (RtMq.send_of_free_cons hlen hf).2
  rw [hq, List.nil_append] at hs
  obtain ⟨mq', hr, -⟩ := RtMq.recv_of_queue_cons mem q.recvSize hs
  exact ⟨mq', hr⟩

/-- The buffer starts with as much of the message as is copied. -/
theorem take_front_received (q : Mq) (msg slot mem : List UInt8) :
    msg.take q.copied <+: received q msg slot mem := by
  obtain ⟨t, ht⟩ := RtMq.prefix_patch_zero slot msg
  refine List.IsPrefix.trans ?_ (RtMq.prefix_patch_zero mem _)
  rw [← ht, List.take_append]
  exact List.prefix_append _ _

/-- What `main` reads behind its buffer is not touched by the message. -/
theorem wordAt_received_mainMq {buffer : List UInt8} (hb : buffer.length = 20)
    (msg slot after : List UInt8) :
    wordAt (received .mainMq msg slot (buffer ++ after)) 5 = wordAt after 0 := by
  have hcopied : Mq.mainMq.copied = 20 := by decide
  have hbyte (k : Nat) : (received .mainMq msg slot (buffer ++ after)).getD (20 + k) 0
      = after.getD k 0 := by
    rw [received, getD_patch, if_neg (by rw [List.length_take, hcopied]; omega),
      List.getD_append_right _ _ _ _ (by omega)]
    congr 1
    omega
  unfold wordAt
  exact congr (congr (congr (congrArg ofBytes (hbyte 0)) (hbyte 1)) (hbyte 2)) (hbyte 3)

/-! ### What the receivers read -/

/-- `main` reads the same message whatever the slot and its buffer held, and code 3 is the one that
makes it read on. -/
theorem exists_mainSwitch_received (h : Sent .mainMq msg) : ∃ m : MainMsg Unit,
    (∀ slot mem, mainSwitch (received .mainMq msg slot mem) = some m) ∧
    (wordAt msg 0 = 3 ↔ ∃ total qualifiedAmount year mon,
      m = .restore total qualifiedAmount year mon) := by
  have hread {m : MainMsg Unit} (hm : CarriesMain m msg) (slot mem : List UInt8) :
      mainSwitch (received .mainMq msg slot mem) = some (erase m) :=
    hm.1 _ (take_front_received .mainMq _ slot mem)
  have hcode {code : UInt32} {m : MainMsg Unit} (hmsg : msg = words [code])
      (hm : ∀ b, wordAt b 0 = code → mainSwitch b = some (erase m)) (h3 : code ≠ 3)
      (hr : ∀ total qualifiedAmount year mon, m ≠ .restore total qualifiedAmount year mon) :
      ∃ m : MainMsg Unit, (∀ slot mem, mainSwitch (received .mainMq msg slot mem) = some m) ∧
        (wordAt msg 0 = 3 ↔ ∃ total qualifiedAmount year mon,
          m = .restore total qualifiedAmount year mon) := by
    subst hmsg
    refine ⟨_, hread (carriesMain_code hm), iff_of_false ?_ ?_⟩
    · rwa [words_cons, wordAt_wordBytes_append_zero]
    · rintro ⟨_, _, _, _, he⟩
      cases m <;> cases he
      exact hr _ _ _ _ rfl
  cases h with
  | inputInterruptIsr =>
    exact hcode (m := .weigh) rfl (fun b hb => by simp [mainSwitch, hb, erase]) (by decide)
      (by simp)
  | inputInterruptIsr2 =>
    exact hcode (m := .grabbed) rfl (fun b hb => by simp [mainSwitch, hb, erase]) (by decide)
      (by simp)
  | sendBtnMsg up =>
    cases up
    · exact hcode (m := .thresholdDown) rfl (fun b hb => by simp [mainSwitch, hb, erase])
        (by decide) (by simp)
    · exact hcode (m := .thresholdUp) rfl (fun b hb => by simp [mainSwitch, hb, erase])
        (by decide) (by simp)
  | sendNbConnMsg =>
    exact hcode (m := .published ()) rfl (fun b hb => by simp [mainSwitch, hb, erase]) (by decide)
      (by simp)
  | sendFileMsg rbuf =>
    refine ⟨_, hread (carriesMain_sendFileMsg (by simp)), ?_⟩
    unfold sendFileMsg SortingLine.sendFileMsg
    split_ifs
    · exact iff_of_false (by decide) (by simp [erase])
    · exact iff_of_true (wordAt_patch_words rbuf.toList 0 [3] 0) ⟨_, _, _, _, rfl⟩
  | nbGetCsq c₄ c₅ =>
    refine ⟨.csq c₄ c₅, fun slot mem => ?_, iff_of_false ?_ (by simp)⟩
    · obtain ⟨t, ht⟩ := take_front_received .mainMq (nbGetCsq c₄ c₅) slot mem
      rw [← ht]
      rfl
    · rw [nbGetCsq, wordAt_words_append _ _ (by simp)]
      decide
  | nbGetTime d =>
    refine ⟨.date d, fun slot mem => ?_, iff_of_false ?_ (by simp)⟩
    · have hfront := take_front_received .mainMq (nbGetTime d) slot mem
      rw [List.take_of_length_le (by simp [nbGetTime, Mq.copied, Mq.recvSize, Mq.msgSize])]
        at hfront
      exact mainSwitch_date hfront
    · rw [nbGetTime, wordAt_words_append _ _ (by simp)]
      decide

/-- The flush task reads the same message whatever the slot and its buffer held. -/
theorem exists_flushSwitch_received (h : Sent .outputDatasMq msg) :
    ∃ m, ∀ slot mem, flushSwitch (received .outputDatasMq msg slot mem) = some m := by
  have hread {m : OutMsg} (hm : CarriesOut m msg) :
      ∃ m, ∀ slot mem, flushSwitch (received .outputDatasMq msg slot mem) = some m :=
    ⟨m, fun slot mem => hm.1 _ (take_front_received .outputDatasMq _ slot mem)⟩
  cases h with
  | sendDataMsg r p => exact hread (carries_output r p initStat).1
  | sendVThresholdMsg r => exact hread (carries_output r initInfo initStat).2.1
  | sendRtcMsg p => exact hread (carries_output initRes p initStat).2.2.1
  | sendProductInfoMsg p => exact hread (carries_output initRes p initStat).2.2.2.1
  | sendCsq t => exact hread (carries_output initRes initInfo t).2.2.2.2.1
  | sendMsgIdMsg t => exact hread (carries_output initRes initInfo t).2.2.2.2.2

/-- The file thread writes the same bytes whatever the slot and its buffer held. -/
theorem exists_fileSwitch_received (h : Sent .fileWriteMq msg) :
    ∃ m : FileMsg, ∀ slot mem d,
      fileSwitch d (received .fileWriteMq msg slot mem) = d.handle m := by
  have hread {m : FileMsg} (hm : CarriesFile m msg) : ∃ m : FileMsg, ∀ slot mem d,
      fileSwitch d (received .fileWriteMq msg slot mem) = d.handle m :=
    ⟨m, fun slot mem =>
      congrFun (Option.some.inj (hm.1 _ (take_front_received .fileWriteMq _ slot mem)))⟩
  cases h with
  | sendInfoToFileMsg p => exact hread (carries_file p).1
  | sendDateToFileMsg p => exact hread (carries_file p).2

/-- The NB thread takes the same digits whatever the slot and its buffer held. -/
theorem exists_nbSwitch_received (h : Sent .nbiotMq msg) :
    ∃ set, ∀ slot mem, nbSwitch (received .nbiotMq msg slot mem) = some set := by
  cases h with
  | sendNbMsg r t =>
    exact ⟨nbAction (⟨r.vMeasure, r.qualified, t.msgId, r.vThreshold⟩, 0), fun slot mem =>
      (carriesNb_nbBytes (⟨r.vMeasure, r.qualified, t.msgId, r.vThreshold⟩, 0)).1 _
        (take_front_received .nbiotMq _ slot mem)⟩

/-! ### The receivers -/

/-- `main` uses the word behind its buffer for code 3, and for no other message. -/
theorem recv_eq_recv_iff (msg : MainMsg Unit) (after after' : UInt32) :
    (∀ m : Main, m.recv msg after = m.recv msg after') ↔
    ((∃ total qualifiedAmount year mon, msg = .restore total qualifiedAmount year mon) →
      after = after') := by
  constructor
  · rintro h ⟨total, qualifiedAmount, year, mon, rfl⟩
    exact congrArg (fun r => r.1.info.day) (h (.start 0))
  · intro h m
    cases msg with
    | restore total qualifiedAmount year mon => rw [h ⟨_, _, _, _, rfl⟩]
    | _ => rfl

variable {slot' buffer buffer' after after' : List UInt8}

/-- **When a receiver depends only on what was sent**, and receives only what fits in its buffer:
`nb_comm` never does the latter, and `main` does the former for every message but code 3, where the
word behind its buffer has to be the same. -/
theorem handle_received_iff (h : Sent q msg) (hb : buffer.length = q.bufSize)
    (hb' : buffer'.length = q.bufSize) :
    (∀ st, handle q (received q msg slot (buffer ++ after)) st
      = handle q (received q msg slot' (buffer' ++ after')) st) ∧ q.Fits ↔
    (q = .mainMq → wordAt msg 0 = 3 → wordAt after 0 = wordAt after' 0) ∧ q ≠ .nbiotMq := by
  cases q with
  | mainMq =>
    obtain ⟨m, hm, h3⟩ := exists_mainSwitch_received h
    have hhandle (st : Main) : (handle .mainMq (received .mainMq msg slot (buffer ++ after)) st
        = handle .mainMq (received .mainMq msg slot' (buffer' ++ after')) st) ↔
        (st.recv m (wordAt after 0) = st.recv m (wordAt after' 0)) := by
      simp only [handle, hm, wordAt_received_mainMq hb, wordAt_received_mainMq hb']
      exact Iff.rfl
    have hfits : Mq.mainMq.Fits := by decide
    simp only [hfits, and_true, ne_eq, reduceCtorEq, not_false_eq_true, forall_const, h3]
    rw [← recv_eq_recv_iff]
    exact forall_congr' hhandle
  | outputDatasMq =>
    obtain ⟨m, hm⟩ := exists_flushSwitch_received h
    refine ⟨fun _ => ⟨by simp, by simp⟩, fun _ => ⟨fun st => ?_, by decide⟩⟩
    simp only [handle, hm]
    rfl
  | fileWriteMq =>
    obtain ⟨m, hm⟩ := exists_fileSwitch_received h
    refine ⟨fun _ => ⟨by simp, by simp⟩, fun _ => ⟨fun (d : Disk) => ?_, by decide⟩⟩
    exact (hm slot (buffer ++ after) d).trans (hm slot' (buffer' ++ after') d).symm
  | nbiotMq =>
    have hfits : ¬ Mq.nbiotMq.Fits := by decide
    simp [hfits]

/-- A display message is drawn the same whatever stands around it, and fits. -/
theorem handle_received_data :
    (∀ g, handle .outputDatasMq (received .outputDatasMq (sendDataMsg initRes initInfo)
        (List.replicate 24 0) (List.replicate 20 0 ++ words [1])) g
      = handle .outputDatasMq (received .outputDatasMq (sendDataMsg initRes initInfo)
        (List.replicate 24 7) (List.replicate 20 9 ++ words [2])) g) ∧ Mq.outputDatasMq.Fits :=
  (handle_received_iff (.sendDataMsg initRes initInfo) rfl rfl).mpr
    ⟨fun h => (by cases h), by decide⟩

/-- **Two receivers that go too far**: a restored record gets its day from behind the buffer of
`main`, and the NB thread receives 24 bytes into 20. -/
theorem handle_received_restore_ne :
    (∃ rbuf : Vector UInt8 24, rbuf.toList = words [3, 120, 117, 2022, 7, 13] ∧
      Sent .mainMq (sendFileMsg rbuf.toList) ∧
      (handle .mainMq (received .mainMq (sendFileMsg rbuf.toList) (List.replicate 24 0)
        (List.replicate 20 0 ++ words [0])) (Main.start 0) : Main × List Effect)
      ≠ (handle .mainMq (received .mainMq (sendFileMsg rbuf.toList) (List.replicate 24 0)
        (List.replicate 20 0 ++ words [21])) (Main.start 0) : Main × List Effect)) ∧
    Mq.nbiotMq.copied = 24 ∧ Mq.nbiotMq.bufSize = 20 ∧ ¬ Mq.nbiotMq.Fits := by
  refine ⟨⟨⟨(words [3, 120, 117, 2022, 7, 13]).toArray, rfl⟩, rfl, .sendFileMsg _, fun h => ?_⟩,
    by decide, by decide, by decide⟩
  have hday := congrArg (fun r : Main × List Effect => r.1.info.day) h
  exact absurd hday (by decide +kernel)

end Wire

end SortingLine
