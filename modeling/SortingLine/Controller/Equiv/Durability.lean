import SortingLine.Controller.Equiv.FileLog
import SortingLine.Controller.Equiv.System

/-!
# The log and the totals

After start-up the file thread reports the log to `main`, once.  `main` answers a blank log by
writing its totals, and adopts the totals of any other; from then on the log and `main` agree
(`LogInv.settled`).  But nothing writes the log again: `add_porduct` changes the totals of `main`
only.  So the log is right in every state at rest of the runs that weigh no item once the report was
taken (`logged_of_reaches`), and wrong after the first item of any other.
-/

namespace SortingLine

/-- The log holds the totals of `p`. -/
structure Disk.Logged (d : Disk) (p : ProductInfo) : Prop where
  length : 12 ≤ d.log.length
  total : wordAt d.log 1 = p.total
  qualifiedAmount : wordAt d.log 2 = p.qualifiedAmount

namespace Disk

variable {d : Disk}

/-- The message with the totals logs them. -/
theorem logged_handle_info (p : ProductInfo) :
    (d.handle (.info p.total p.qualifiedAmount)).Logged p := by
  constructor
  · rw [length_log_handle]
    exact Nat.le_max_right _ _
  · exact wordAt_log_handle_info p.total p.qualifiedAmount 1
  · exact wordAt_log_handle_info p.total p.qualifiedAmount 2

/-- The message with the date leaves the totals in the log alone. -/
theorem Logged.handle_date {p : ProductInfo} (h : d.Logged p) (year mon day : UInt32) :
    (d.handle (.date year mon day)).Logged p := by
  constructor
  · rw [length_log_handle]
    exact Nat.le_trans h.length (Nat.le_max_left _ _)
  · exact (wordAt_log_handle_date year mon day 1).trans h.total
  · exact (wordAt_log_handle_date year mon day 2).trans h.qualifiedAmount

end Disk

namespace Sys

variable {s s' : Sys} {a : Label} {tempAdc : UInt16} {disk : Disk} {tr : List (Sys × Label)}

/-! ### The report of the file thread -/

/-- The messages of `send_file_msg`. -/
def isReport : MainMsg (NbRecord × Nat) → Bool
  | .blankLog | .restore .. => true
  | _ => false

/-- The reports of the file thread in `main_mq`. -/
def reports (s : Sys) : List (MainMsg (NbRecord × Nat)) := s.mainMq.items.filter isReport

/-- The file thread has reported. -/
def reported : FilePc → Bool
  | .idle | .write _ => true
  | _ => false

/-- The message the file thread is about to write. -/
def writing : FilePc → List FileMsg
  | .write m => [m]
  | _ => []

/-- The report of the file thread finds `main_mq` full. -/
def ReportDropped (x : Sys × Label) : Prop := x.2 = .fileReport ∧ x.1.mainMq.Full

instance : DecidablePred ReportDropped := fun _ => inferInstanceAs (Decidable (_ ∧ _))

/-- The step weighs an item after `main` has taken the report. -/
def WeighsUnlogged (x : Sys × Label) : Prop :=
  Weighs x ∧ reported x.1.file = true ∧ reports x.1 = []

instance : DecidablePred WeighsUnlogged := fun _ => inferInstanceAs (Decidable (_ ∧ _ ∧ _))

theorem isReport_sendFileMsg (rbuf : List UInt8) : isReport (sendFileMsg rbuf) = true := by
  rcases sendFileMsg_cases (τ := NbRecord × Nat) rbuf with h | ⟨_, _, _, _, h⟩ <;> rw [h] <;> rfl

/-- Only the file thread sends reports. -/
theorem isReport_of_posted {m : MainMsg (NbRecord × Nat)} (hf : a ≠ .fileReport)
    (h : posted s a = some m) : isReport m = false := by
  rcases posted_cases h with ⟨-, rfl⟩ | ⟨-, rfl⟩ | ⟨up, -, rfl⟩ | ⟨_, ha, -⟩ | ⟨_, -, rfl⟩ |
    ⟨_, -, rfl⟩ | ⟨_, -, -, rfl⟩
  · rfl
  · rfl
  · cases up <;> rfl
  · exact absurd ha hf
  · rfl
  · rfl
  · rfl

theorem step_reports (h : s.step a = some s') (hr : isMainRecv a = false) (hf : a ≠ .fileReport) :
    reports s' = reports s := by
  cases moves_mainMq h with
  | take _ ha => rw [hr] at ha; cases ha
  | send _ hq =>
    rw [reports, hq]
    cases hpost : posted s a with
    | none => rfl
    | some m =>
      have hrep := isReport_of_posted hf hpost
      show List.filter isReport (s.mainMq.send m).items = _
      rcases s.mainMq.items_send m with hs | hs
      · rw [hs, reports]
      · rw [hs, reports]
        simp [hrep]

/-! ### The invariant -/

/-- Before the report: what the file thread knows of the log. -/
def Unreported (d : Disk) : FilePc → Prop
  | .start => d.userlog = true → 12 ≤ d.log.length
  | .blank => True
  | .read => 12 ≤ d.log.length
  | .report rbuf => 12 ≤ d.log.length ∧ ∀ i < 3, wordAt rbuf i = wordAt d.log i
  | _ => False

/-- The log and the totals of `main`, from start-up on. -/
inductive LogInv (s : Sys) : Prop
  /-- There is no file system. -/
  | ended : s.file = .ended → LogInv s
  /-- The file thread has not reported yet. -/
  | unreported : Unreported s.disk s.file → reports s = [] → s.fileWriteMq.items = [] → LogInv s
  /-- The report waits in `main_mq`. -/
  | waiting (m : MainMsg (NbRecord × Nat)) : s.file = .idle → 12 ≤ s.disk.log.length →
      reports s = [m] →
      (m = .blankLog ∨
        ∃ year mon, m = .restore (wordAt s.disk.log 1) (wordAt s.disk.log 2) year mon) →
      s.fileWriteMq.items = [] → LogInv s
  /-- `main` has taken the report; what is on the way to the log will make it right. -/
  | settled : reported s.file = true → reports s = [] →
      ((writing s.file ++ s.fileWriteMq.items).foldl Disk.handle s.disk).Logged s.main.info →
      LogInv s

theorem logInv_start (h : disk.userlog = true → 12 ≤ disk.log.length) :
    LogInv (start tempAdc disk) :=
  .unreported h rfl rfl

/-- A step that takes no report and writes no log keeps the invariant, if it does not change the
totals after the report was taken. -/
theorem LogInv.of_eq (hI : LogInv s) (hfile : s'.file = s.file) (hdisk : s'.disk = s.disk)
    (hrep : reports s' = reports s) (hmq : s'.fileWriteMq = s.fileWriteMq)
    (hinfo : reported s.file = true → reports s = [] →
      s'.main.info.total = s.main.info.total ∧
        s'.main.info.qualifiedAmount = s.main.info.qualifiedAmount) : LogInv s' := by
  rw [← hfile, ← hrep] at hinfo
  cases hI with
  | ended hf => exact .ended (hfile.trans hf)
  | unreported hu hr hq => exact .unreported (by rwa [hfile, hdisk]) (hrep.trans hr) (by rwa [hmq])
  | waiting m hf hl hr hm hq =>
    exact .waiting m (hfile.trans hf) (by rwa [hdisk]) (hrep.trans hr) (by rwa [hdisk])
      (by rwa [hmq])
  | settled hf hr hl =>
    rw [← hfile] at hf
    rw [← hrep] at hr
    obtain ⟨ht, hqa⟩ := hinfo hf hr
    rw [← hfile, ← hdisk, ← hmq] at hl
    exact .settled hf hr ⟨hl.length, hl.total.trans ht.symm, hl.qualifiedAmount.trans hqa.symm⟩

/-- What the invariant says before the report. -/
theorem LogInv.of_unreported (hI : LogInv s) (he : s.file ≠ .ended) (hf : reported s.file = false) :
    Unreported s.disk s.file ∧ reports s = [] ∧ s.fileWriteMq.items = [] := by
  cases hI with
  | ended h => exact absurd h he
  | unreported hu hr hq => exact ⟨hu, hr, hq⟩
  | waiting m h => simp [h, reported] at hf
  | settled h => simp [h] at hf

/-- The file thread up to its report. -/
theorem LogInv.fileReport (hI : LogInv s) (h : s.step .fileReport = some s')
    (hd : ¬ ReportDropped (s, .fileReport)) : LogInv s' := by
  obtain ⟨rbuf, hf, rfl⟩ := step_spec h
  obtain ⟨hu, hr, hq⟩ := hI.of_unreported (by simp [hf]) (by simp [hf, reported])
  rw [hf] at hu
  obtain ⟨hlen, hw⟩ := hu
  refine .waiting (sendFileMsg rbuf) rfl hlen ?_ ?_ hq
  · have hfull : ¬ s.mainMq.Full := fun h => hd ⟨rfl, h⟩
    rw [reports] at hr
    simp [reports, post, BQueue.items_send_of_not_full hfull, hr, isReport_sendFileMsg]
  · rw [sendFileMsg]
    split_ifs
    · exact .inl rfl
    · exact .inr ⟨_, _, by rw [hw 1 (by omega), hw 2 (by omega)]; rfl⟩

/-- The file thread. -/
theorem LogInv.file (hI : LogInv s) (h : s.step a = some s') (ha : mover a = .file)
    (hd : ¬ ReportDropped (s, a)) : LogInv s' := by
  have hspec := step_spec h
  cases a with
  | fileStart running =>
    obtain ⟨hf, ⟨-, rfl⟩ | ⟨-, hdir, rfl⟩ | ⟨-, -, rfl⟩⟩ := hspec
    · exact .ended rfl
    · obtain ⟨hu, hr, hq⟩ := hI.of_unreported (by simp [hf]) (by simp [hf, reported])
      rw [hf] at hu
      exact .unreported (hu hdir) hr hq
    · obtain ⟨-, hr, hq⟩ := hI.of_unreported (by simp [hf]) (by simp [hf, reported])
      exact .unreported trivial hr hq
  | fileBlank =>
    obtain ⟨hf, rfl⟩ := hspec
    obtain ⟨-, hr, hq⟩ := hI.of_unreported (by simp [hf]) (by simp [hf, reported])
    refine .unreported ?_ hr hq
    show 12 ≤ (patch s.disk.log 0 (List.replicate 24 0)).length
    rw [length_patch, List.length_replicate]
    omega
  | fileRead rbuf =>
    obtain ⟨hf, rfl⟩ := hspec
    obtain ⟨hu, hr, hq⟩ := hI.of_unreported (by simp [hf]) (by simp [hf, reported])
    rw [hf] at hu
    have hlen : 12 ≤ s.disk.log.length := hu
    exact .unreported ⟨hlen, fun i hi => Disk.wordAt_fileRead _ (by omega) (by omega)⟩ hr hq
  | fileReport => exact hI.fileReport h hd
  | fileRecv =>
    obtain ⟨m, q, hf, hq, rfl⟩ := hspec
    cases hI with
    | ended h => simp [h] at hf
    | unreported hu => rw [hf] at hu; exact hu.elim
    | waiting _ _ _ _ _ hq' => simp [hq'] at hq
    | settled _ hr hl =>
      -- the message goes from the queue to the thread
      refine .settled rfl hr ?_
      simpa [hf, hq, writing] using hl
  | fileWrite =>
    obtain ⟨m, hf, rfl⟩ := hspec
    cases hI with
    | ended h => simp [h] at hf
    | unreported hu => rw [hf] at hu; exact hu.elim
    | waiting _ h => simp [h] at hf
    | settled _ hr hl =>
      refine .settled rfl hr ?_
      simpa [hf, writing] using hl
  | _ => cases ha

/-- A message other than a report changes neither the totals nor the log. -/
theorem recv_of_not_report (m : Main) {msg : MainMsg (NbRecord × Nat)} (h : isReport msg = false)
    (after : UInt32) : fileMsgs (m.recv msg after).2 = [] ∧
    (m.recv msg after).1.info.total = m.info.total ∧
    (m.recv msg after).1.info.qualifiedAmount = m.info.qualifiedAmount := by
  cases msg <;> simp only [isReport, Bool.true_eq_false] at h <;> simp only [Main.recv] <;>
    try split_ifs
  all_goals simp [fileMsgs, setDateTime]

/-- `main` takes a message: the report settles the log. -/
theorem LogInv.mainRecv {after : UInt32} (hI : LogInv s)
    (h : s.step (.mainRecv after) = some s') : LogInv s' := by
  obtain ⟨m, q, -, hq, hs'⟩ := step_spec h
  have hfr := step_frame h
  have hfile : s'.file = s.file := hfr.file (by simp [mover])
  have hdisk : s'.disk = s.disk := hfr.disk (by simp [mover])
  have hmain : s'.main = (s.main.recv m after).1 := by rw [hs', commit_main]
  have hmq : s'.fileWriteMq
      = (fileMsgs (s.main.recv m after).2).foldl BQueue.send s.fileWriteMq := by
    rw [hs', commit_fileWriteMq]
  have hrep : reports s = if isReport m then m :: reports s' else reports s' := by
    rw [reports, reports, hs', commit_mainMq, hq, List.filter_cons]
  by_cases hm : isReport m = true
  · rw [if_pos hm] at hrep
    cases hI with
    | ended hf => exact .ended (hfile.trans hf)
    | unreported _ hr => simp [hr] at hrep
    | settled _ hr => simp [hr] at hrep
    | waiting m' hf hl hr hm' hfw =>
      rw [hr, List.cons.injEq] at hrep
      obtain ⟨rfl, hr'⟩ := hrep
      refine .settled (by rw [hfile, hf]; rfl) hr'.symm ?_
      have hfw' : s.fileWriteMq = .empty := BQueue.ext hfw
      rw [hfile, hdisk, hmain, hmq, hfw', hf]
      rcases hm' with rfl | ⟨year, mon, rfl⟩
      · -- a blank log: both answers find a free slot, and write what `main` has
        exact (Disk.logged_handle_info s.main.info).handle_date _ _ _
      · -- `main` adopts the totals of the log
        exact ⟨hl, rfl, rfl⟩
  · have hm' : isReport m = false := by simpa using hm
    rw [if_neg hm] at hrep
    obtain ⟨hno, ht, hqa⟩ := recv_of_not_report s.main hm' after
    refine hI.of_eq hfile hdisk hrep.symm ?_ fun _ _ => ?_
    · rw [hmq, hno]; rfl
    · rw [hmain]; exact ⟨ht, hqa⟩

/-- **What a step does to the log and the totals.** -/
theorem step_logInv (hI : LogInv s) (h : s.step a = some s') (hd : ¬ ReportDropped (s, a))
    (hw : ¬ WeighsUnlogged (s, a)) : LogInv s' := by
  by_cases ha : mover a = .file
  · exact hI.file h ha hd
  -- the others touch neither the disk nor the file thread: what counts is the totals
  have hfr := step_frame h
  have heff := (step_effects h).1.fileWriteMq (by rintro rfl; exact ha rfl)
  rcases step_records h with ⟨m, after, rfl, -⟩ | ⟨adc, rfl, hpc, -, he, -⟩ | hq
  · exact hI.mainRecv h
  · refine hI.of_eq (hfr.file ha) (hfr.disk ha) (step_reports h (by simp) (by simp)) ?_
      fun hf hr => absurd ⟨⟨rfl, hpc⟩, hf, hr⟩ hw
    rw [heff, he]
    rfl
  · have hrecv : isMainRecv a = false := by
      cases a <;> first | rfl | exact absurd rfl (hq.not_recv _)
    refine hI.of_eq (hfr.file ha) (hfr.disk ha)
      (step_reports h hrecv (by rintro rfl; exact ha rfl)) ?_ fun _ _ => by simp [hq.info]
    rw [heff, hq.fileMsgs]
    rfl

/-! ### States at rest -/

/-- `main_mq` and `file_write_mq` are empty and the file thread waits for a message. -/
def LogIdle (s : Sys) : Prop :=
  s.mainMq.items = [] ∧ s.fileWriteMq.items = [] ∧ s.file = .idle

instance : DecidablePred LogIdle := fun _ => inferInstanceAs (Decidable (_ ∧ _ ∧ _))

/-- **When the log is right.**  Start from a log of at least 12 bytes, or none.  In every run in
which the report of the file thread finds a free slot, and no item is weighed after `main` took it,
the log holds the totals of `main` in every state at rest. -/
theorem logged_of_reaches (h : Reaches tempAdc disk tr s)
    (hdisk : disk.userlog = true → 12 ≤ disk.log.length)
    (hd : ∀ x ∈ tr, ¬ ReportDropped x ∧ ¬ WeighsUnlogged x) (hi : LogIdle s) :
    s.disk.Logged s.main.info := by
  have hI : LogInv s := h.invariant_of_forall (C := fun x => ¬ ReportDropped x ∧ ¬ WeighsUnlogged x)
    (logInv_start hdisk) (fun _ _ _ hx hI h => step_logInv hI h hx.1 hx.2) hd
  obtain ⟨hm, hq, hf⟩ := hi
  -- at rest nothing is under way, so the report was taken and all was written
  cases hI with
  | ended h => simp [h] at hf
  | unreported hu => rw [hf] at hu; exact hu.elim
  | waiting m _ _ hr => simp [reports, hm] at hr
  | settled _ _ hl => simpa [hf, hq, writing] using hl

/-- The file thread makes its directory and a blank log, and reports it. -/
def blankLogLabels : List Label :=
  [.fileStart true, .fileBlank, .fileRead (.replicate 24 0), .fileReport]

/-- The file thread takes a message and writes it. -/
def writeLabels : List Label := [.fileRecv, .fileWrite]

/-- The first start: `main` answers the blank log, and the file thread writes both messages. -/
theorem logged_after_first_start : ∃ tr s, Reaches 0 ⟨false, none⟩ tr s ∧
    tr.map Prod.snd = blankLogLabels ++ [.mainRecv 0] ++ writeLabels ++ writeLabels ∧
    LogIdle s ∧ s.disk.Logged s.main.info := by
  obtain ⟨tr, s, h, hl, hd, hi⟩ := exists_reaches
    (blankLogLabels ++ [.mainRecv 0] ++ writeLabels ++ writeLabels)
    (fun r => (∀ x ∈ r.1, ¬ ReportDropped x ∧ ¬ WeighsUnlogged x) ∧ LogIdle r.2) (by decide +kernel)
  exact ⟨tr, s, h, hl, hi, logged_of_reaches h (by simp) hd hi⟩

/-- One item after that: the log still says 0. -/
theorem not_logged_after_first_item : ∃ tr s, Reaches 0 ⟨false, none⟩ tr s ∧
    tr.map Prod.snd = blankLogLabels ++ [.mainRecv 0] ++ writeLabels ++ writeLabels
      ++ grabLabels 3000 ++ weighLabels 2500 ++ resumeLabels ∧
    LogIdle s ∧ wordAt s.disk.log 1 = 0 ∧ s.main.info.total = 1 ∧
    ¬ s.disk.Logged s.main.info := by
  obtain ⟨tr, s, h, hl, hi, hw, ht⟩ := exists_reaches
    (blankLogLabels ++ [.mainRecv 0] ++ writeLabels ++ writeLabels ++ grabLabels 3000
      ++ weighLabels 2500 ++ resumeLabels)
    (fun r => LogIdle r.2 ∧ wordAt r.2.disk.log 1 = 0 ∧ r.2.main.info.total = 1) (by decide +kernel)
  refine ⟨tr, s, h, hl, hi, hw, ht, fun hlog => ?_⟩
  have := hlog.total
  rw [hw, ht] at this
  exact absurd this (by decide)

end Sys

end SortingLine
