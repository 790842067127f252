import SortingLine.Controller.Equiv.Durability
import SortingLine.Controller.PowerLoss

/-!
# The log and power losses

`file_wr_task` takes the directory as a sign that there is a log, and the flag in its first word as
a sign that the rest was written.  So a power loss between `mkdir` and the blank log, one that cuts
a log in use, and one between the totals and the first date each make the next start report bytes
that nobody wrote.  Without such a loss every report is sound (`sound_of_reaches`), and each such
loss is followed by an unsound report if the buffer of the file thread holds the wrong bytes
(`harmless_iff`).
-/

namespace SortingLine

theorem Disk.handle_eq (d : Disk) (m : FileMsg) : d.handle m = d.fileWrite m.data m.offset := by
  cases m <;> rfl

@[simp]
theorem Disk.log_cut (d : Disk) (n : Nat) : (d.cut n).log = d.log.take n := by
  cases hd : d.logfile <;> simp [Disk.cut, Disk.log, hd]

@[simp]
theorem Disk.userlog_cut (d : Disk) (n : Nat) : (d.cut n).userlog = d.userlog := rfl

/-- The flag survives a loss behind it. -/
theorem wordAt_take {b : List UInt8} {n i : Nat} (h : 4 * i + 4 ≤ n) :
    wordAt (b.take n) i = wordAt b i := by
  refine wordAt_congr fun k _ hk => ?_
  simp [List.getD_eq_getElem?_getD, show k < n by omega]

namespace Powered

variable {s s' : Powered} {e : Event} {tempAdc : UInt16} {tr : List (Powered × Event)}
  {d : Disk} {o : Provenance FileMsg}

/-! ### What the file thread finds -/

/-- The log tells the file thread the truth: it says that it is blank, or it is recorded. -/
def Readable (d : Disk) (o : Provenance FileMsg) : Prop :=
  (4 ≤ d.log.length ∧ wordAt d.log 0 = 0) ∨
    ∃ total qualifiedAmount year mon day, Recorded o total qualifiedAmount year mon day

theorem readable_cut_of_harmless {n : Nat} (h : Harmless (s, .powerLoss n tempAdc)) :
    s.sys.disk.userlog = true → Readable (s.sys.disk.cut n) (s.origin.cut n) := by
  intro hu
  rcases h with h | ⟨hn, hl, h0⟩ | ⟨hn, total, qa, year, mon, day, ht, hd⟩
  · simp [hu] at h
  · have hlen : 4 ≤ s.sys.disk.log.length := hl
    refine .inl ⟨?_, ?_⟩
    · rw [Disk.log_cut, List.length_take]
      omega
    · rw [Disk.log_cut, wordAt_take (by omega), h0]
  · refine .inr ⟨total, qa, year, mon, day, fun k hk hk' => ?_, fun k hk hk' => ?_⟩
    · rw [Provenance.cut, if_pos (by omega), ht k hk hk']
    · rw [Provenance.cut, if_pos (by omega), hd k hk hk']

/-- The bytes of the log come from where `origin` says. -/
abbrev Described (s : Powered) : Prop :=
  s.origin.Describes FileMsg.offset FileMsg.data s.sys.disk.log

/-- What is read of a recorded log: the fields of both messages. -/
theorem getD_fileRead_of_recorded {total qa year mon day : UInt32}
    (ho : o.Describes FileMsg.offset FileMsg.data d.log) (hr : Recorded o total qa year mon day)
    (rbuf : List UInt8) {k : Nat} (hk : 4 ≤ k) (hk' : k < 24) :
    (d.fileRead rbuf 24).getD k 0 = (words [3, total, qa, year, mon, day]).getD k 0 := by
  have hsplit : words [3, total, qa, year, mon, day]
      = words [3, total, qa] ++ words [year, mon, day] := rfl
  have hread (hlt : k < d.log.length) : (d.fileRead rbuf 24).getD k 0 = d.log.getD k 0 := by
    rw [Disk.fileRead, getD_patch, if_pos (by rw [List.length_take]; omega), Nat.sub_zero]
    simp [List.getD_eq_getElem?_getD, hk']
  rw [hsplit]
  rcases Nat.lt_or_ge k 12 with h12 | h12
  · obtain ⟨hlt, -, hb⟩ := ho k _ (hr.1 k hk h12)
    rw [hread hlt, hb, List.getD_append _ _ _ _ (by simpa using h12)]
    rfl
  · obtain ⟨hlt, -, hb⟩ := ho k _ (hr.2 k h12 hk')
    rw [hread hlt, hb, List.getD_append_right _ _ _ _ (by simpa using h12)]
    rfl

/-- The report on a readable log. -/
theorem report_of_readable (ho : o.Describes FileMsg.offset FileMsg.data d.log)
    (h : Readable d o) (rbuf : Vector UInt8 24) :
    Wire.sendFileMsg (d.fileRead rbuf.toList 24) = words [2] ∨
    ∃ total qa year mon day,
      Wire.sendFileMsg (d.fileRead rbuf.toList 24) = words [3, total, qa, year, mon, day] ∧
      Recorded o total qa year mon day := by
  unfold Wire.sendFileMsg
  split_ifs with hflag
  · exact .inl rfl
  rcases h with ⟨hl, h0⟩ | ⟨total, qa, year, mon, day, hr⟩
  · exact absurd ((Disk.wordAt_fileRead _ (by omega) (by omega)).trans h0) hflag
  · refine .inr ⟨total, qa, year, mon, day, ?_, hr⟩
    have hlen : (d.fileRead rbuf.toList 24).length = 24 := Disk.length_fileRead (by simp)
    refine List.ext_getElem (by rw [length_patch, hlen]; rfl) fun k hk hk' => ?_
    have hk24 : k < 24 := by simpa using hk'
    rw [← List.getD_eq_getElem _ 0 hk, ← List.getD_eq_getElem _ 0 hk', getD_patch]
    split_ifs with h4
    · -- the flag is written over the first word
      have : words [3, total, qa, year, mon, day] =
          words [3] ++ words [total, qa, year, mon, day] := rfl
      rw [this, List.getD_append _ _ _ _ (by simpa using h4), Nat.sub_zero]
    · exact getD_fileRead_of_recorded ho hr _ (by simpa using h4) hk24

/-! ### The invariant -/

/-- What is known of the log at each point of the file thread. -/
def Ready (s : Powered) : Prop :=
  match s.sys.file with
  | .start => s.sys.disk.userlog = true → Readable s.sys.disk s.origin
  | .read => Readable s.sys.disk s.origin
  | .report _ => s.Sound
  | _ => True

theorem Ready.sound (h : s.Ready) : s.Sound := by
  intro rbuf hf
  unfold Ready at h
  rw [hf] at h
  exact h rbuf hf

/-- Only the file thread changes where the bytes of the log come from. -/
theorem nextOrigin_of_mover {a : Label} (ha : Sys.mover a ≠ .file) (o : Provenance FileMsg)
    (s : Sys) : nextOrigin o s a = o := by
  cases a <;> first | rfl | exact absurd rfl ha

/-- **One event keeps the bytes and where they come from together.** -/
theorem step_described (h : s.step e = some s') (hd : s.Described) : s'.Described := by
  cases e with
  | powerLoss n t =>
    obtain rfl := Option.some.inj h
    show (s.origin.cut n).Describes _ _ (s.sys.disk.cut n).log
    rw [Disk.log_cut]
    exact hd.cut n
  | run a =>
    obtain ⟨sys, hs, rfl⟩ := Option.map_eq_some_iff.mp h
    by_cases ha : Sys.mover a = .file
    · replace hs := Sys.step_spec hs
      cases a with
      | fileStart running =>
        obtain ⟨-, ⟨-, rfl⟩ | ⟨-, -, rfl⟩ | ⟨-, -, rfl⟩⟩ := hs <;> exact hd
      | fileBlank => obtain ⟨-, rfl⟩ := hs; exact hd.erase 0 (List.replicate 24 0)
      | fileRead rbuf => obtain ⟨-, rfl⟩ := hs; exact hd
      | fileReport => obtain ⟨_, -, rfl⟩ := hs; exact hd
      | fileRecv => obtain ⟨_, _, -, -, rfl⟩ := hs; exact hd
      | fileWrite =>
        obtain ⟨m, hf, rfl⟩ := hs
        simp only [nextOrigin, hf, Described, Disk.handle_eq]
        exact hd.write m
      | _ => cases ha
    · rw [Described, nextOrigin_of_mover ha, (Sys.step_frame hs).disk ha]
      exact hd

/-- **A step of the controller keeps the log readable.** -/
theorem step_ready {a : Label} (h : s.step (.run a) = some s') (hd : s.Described)
    (hr : s.Ready) : s'.Ready := by
  obtain ⟨sys, hs, rfl⟩ := Option.map_eq_some_iff.mp h
  by_cases ha : Sys.mover a = .file
  · replace hs := Sys.step_spec hs
    unfold Ready at hr
    cases a with
    | fileStart running =>
      obtain ⟨hf, ⟨-, rfl⟩ | ⟨-, hu, rfl⟩ | ⟨-, -, rfl⟩⟩ := hs
      · trivial
      · rw [hf] at hr
        exact hr hu
      · trivial
    | fileBlank =>
      obtain ⟨hf, rfl⟩ := hs
      refine .inl ⟨?_, wordAt_patch_words s.sys.disk.log 0 [0, 0, 0, 0, 0, 0] 0⟩
      show 4 ≤ (patch s.sys.disk.log 0 (List.replicate 24 0)).length
      rw [length_patch, List.length_replicate]
      omega
    | fileRead rbuf =>
      obtain ⟨hf, rfl⟩ := hs
      rw [hf] at hr
      intro rbuf' hrbuf'
      cases hrbuf'
      exact report_of_readable hd hr rbuf
    | fileReport => obtain ⟨_, -, rfl⟩ := hs; trivial
    | fileRecv => obtain ⟨_, _, -, -, rfl⟩ := hs; trivial
    | fileWrite => obtain ⟨_, -, rfl⟩ := hs; trivial
    | _ => cases ha
  · unfold Ready Sound at *
    rw [nextOrigin_of_mover ha, (Sys.step_frame hs).disk ha, (Sys.step_frame hs).file ha]
    exact hr

theorem described_of_reaches (h : Reaches tempAdc tr s) : s.Described :=
  h.invariant (I := Described) Provenance.describes_empty fun _ _ _ hI h => step_described h hI

/-- From a state in which the log is readable, all reports are sound until a loss does harm. -/
theorem sound_of_run {s₀ : Powered} (hd : s₀.Described) (hr : s₀.Ready) (h : Run step s₀ tr s)
    (hC : ∀ x ∈ tr, Harmless x) : s.Sound := by
  have hI : s.Described ∧ s.Ready := by
    refine h.invariant_of_forall (I := fun s => s.Described ∧ s.Ready) ⟨hd, hr⟩
      (fun s e s' he hI h => ?_) hC
    refine ⟨step_described h hI.1, ?_⟩
    cases e with
    | run a => exact step_ready h hI.1 hI.2
    | powerLoss n t =>
      obtain rfl := Option.some.inj h
      exact readable_cut_of_harmless he
  exact hI.2.sound

/-- **Crash safety of the log**: in every run whose power losses are harmless, the file thread
reports a blank log, or a record all of whose fields come from completed writes. -/
theorem sound_of_reaches (h : Reaches tempAdc tr s) (hC : ∀ x ∈ tr, Harmless x) : s.Sound := by
  have hready : (new tempAdc).Ready := fun hu => by cases hu
  exact sound_of_run Provenance.describes_empty hready h hC

/-- A start after a power loss, up to reading the log into a buffer full of `0x55`. -/
theorem run_restart (hu : s.sys.disk.userlog = true) (n : Nat) (tempAdc : UInt16) :
    ∃ tr' s', Run step (s.lose n tempAdc) tr' s' ∧ (∀ x ∈ tr', ∃ a, x.2 = .run a) ∧
      s'.origin = s.origin.cut n ∧
      s'.sys.file = .report ((s.sys.disk.cut n).fileRead (List.replicate 24 0x55) 24) := by
  have h₁ : (s.lose n tempAdc).step (.run (.fileStart true)) = some
      { s.lose n tempAdc with sys := { (s.lose n tempAdc).sys with file := .read } } := by
    simp [step, lose, Sys.step, Sys.start, nextOrigin, hu]
  refine ⟨_, _, (Run.start.next h₁).next (a := .run (.fileRead (.replicate 24 0x55))) rfl, ?_, rfl,
    rfl⟩
  simp

/-- Only a log that says so is reported as blank, when the buffer was full of `0x55`. -/
theorem flag_of_blank_report
    (h : Wire.sendFileMsg (d.fileRead (List.replicate 24 0x55) 24) = words [2]) :
    4 ≤ d.log.length ∧ wordAt d.log 0 = 0 := by
  have h0 : wordAt (d.fileRead (List.replicate 24 0x55) 24) 0 = 0 := by
    by_contra h0
    rw [Wire.sendFileMsg, if_neg h0] at h
    have := congrArg List.length h
    rw [length_patch, Disk.length_fileRead (by simp)] at this
    simp at this
  -- a zero flag cannot come from the buffer
  have h3 : (d.fileRead (List.replicate 24 0x55) 24).getD 3 0 = 0 := eq_zero_of_ofBytes h0
  rw [Disk.fileRead, getD_patch] at h3
  split_ifs at h3 with hlen
  · rw [List.length_take] at hlen
    rw [Disk.wordAt_fileRead _ (by omega) (by omega)] at h0
    exact ⟨by omega, h0⟩
  · exact absurd h3 (by decide)

/-- **Which power losses do harm**: if the loss is not harmless, and only then, the next start may
report bytes that nobody wrote. -/
theorem harmless_iff (h : Reaches tempAdc tr s) (n : Nat) : Harmless (s, .powerLoss n tempAdc) ↔
    ∀ tr' s', Run step (s.lose n tempAdc) tr' s' → (∀ x ∈ tr', ∃ a, x.2 = .run a) → s'.Sound := by
  have hlose : (s.lose n tempAdc).Described :=
    step_described (e := .powerLoss n tempAdc) rfl (described_of_reaches h)
  constructor
  · intro hC tr' s' h' hrun
    refine sound_of_run hlose (readable_cut_of_harmless hC) h' fun x hx => ?_
    obtain ⟨a, ha⟩ := hrun x hx
    rw [Harmless, ha]
    trivial
  · intro hall
    by_contra hC
    have hu : s.sys.disk.userlog = true := by
      by_contra hu
      exact hC (.inl (by simpa using hu))
    obtain ⟨tr', s', h', hrun, ho, hf⟩ := run_restart hu n tempAdc
    rcases hall tr' s' h' hrun _ hf with hw | ⟨total, qa, year, mon, day, -, ht, hdate⟩
    · obtain ⟨hlen, h0⟩ := flag_of_blank_report hw
      rw [Disk.log_cut] at hlen h0
      rw [List.length_take] at hlen
      rw [wordAt_take (by omega)] at h0
      have hlog : 4 ≤ s.sys.disk.log.length := by omega
      exact hC (.inr (.inl ⟨by omega, hlog, h0⟩))
    · rw [ho] at ht hdate
      have hlast := (Provenance.of_cut (hdate 23 (by omega) (by omega))).1
      have hrec : Recorded s.origin total qa year mon day :=
        ⟨fun k hk hk' => (Provenance.of_cut (ht k hk hk')).2,
          fun k hk hk' => (Provenance.of_cut (hdate k hk hk')).2⟩
      exact hC (.inr (.inr ⟨hlast, total, qa, year, mon, day, hrec⟩))

/-- A report with a date that comes from no write is unsound. -/
theorem not_sound_of_date {rbuf : List UInt8} (hf : s.sys.file = .report rbuf)
    (hw : Wire.sendFileMsg rbuf ≠ words [2]) (ho : s.origin 12 = none) : ¬ s.Sound := by
  intro hs
  obtain ⟨total, qa, year, mon, day, -, -, hdate⟩ := (hs rbuf hf).resolve_left hw
  have h12 := hdate 12 (by omega) (by omega)
  rw [ho] at h12
  cases h12

/-! ### Runs -/

/-- A first start, up to the report of the blank log. -/
def firstStartEvents : List Event := Sys.blankLogLabels.map .run

/-- `main` answers the blank log with the totals and the date, and the file thread writes `n` of
the two messages. -/
def answerEvents (n : Nat) : List Event :=
  .run (.mainRecv 0) :: (List.replicate n (Sys.writeLabels.map .run)).flatten

/-- A power loss and the next start, up to reading the log into a buffer full of `x`. -/
def restartEvents (n : Nat) (x : UInt8) : List Event :=
  [.powerLoss n 0, .run (.fileStart true), .run (.fileRead (.replicate 24 x))]

/-- A run from the first start, given by its events. -/
theorem exists_reaches (es : List Event) (p : List (Powered × Event) × Powered → Prop)
    [DecidablePred p] (h : (exec step (new 0) es).any (fun r => p r) = true) :
    ∃ tr s, Reaches 0 tr s ∧ tr.map Prod.snd = es ∧ p (tr, s) :=
  exists_run_of_exec es p h

/-- A power loss after both messages are written does no harm. -/
theorem sound_after_both : ∃ tr s, Reaches 0 tr s ∧
    tr.map Prod.snd = firstStartEvents ++ answerEvents 2 ++ restartEvents 24 0x55 ∧
    s.sys.file = .report (words [3, 0, 0, 2022, 7, 13]) ∧ s.Sound := by
  obtain ⟨tr, s, h, hl, hC, hf⟩ := exists_reaches
    (firstStartEvents ++ answerEvents 2 ++ restartEvents 24 0x55)
    (fun r => (∀ x ∈ r.1, x.2 = .powerLoss 24 0 → Recorded x.1.origin 0 0 2022 7 13) ∧
      r.2.sys.file = .report (words [3, 0, 0, 2022, 7, 13])) (by decide +kernel)
  refine ⟨tr, s, h, hl, hf, sound_of_reaches h fun x hx => ?_⟩
  have he : x.2 ∈ firstStartEvents ++ answerEvents 2 ++ restartEvents 24 0x55 := by
    rw [← hl]
    exact List.mem_map_of_mem hx
  rcases x with ⟨s, a | ⟨n, t⟩⟩
  · trivial
  · obtain ⟨rfl, rfl⟩ : n = 24 ∧ t = 0 := by
      simpa [firstStartEvents, answerEvents, restartEvents, Sys.blankLogLabels,
        Sys.writeLabels] using he
    exact .inr (.inr ⟨by omega, _, _, _, _, _, hC _ hx rfl⟩)

/-- **Two power losses after which bytes are reported that nobody wrote**: one between `mkdir` and
the blank log, after which the buffer itself is reported, and one between the totals and the date,
after which a date of zeros is. -/
theorem not_sound_after_powerLoss :
    (∃ tr s, Reaches 0 tr s ∧
      tr.map Prod.snd = .run (.fileStart true) :: restartEvents 24 0x55 ∧
      s.sys.file = .report (List.replicate 24 0x55) ∧ ¬ s.Sound) ∧
    ∃ tr s, Reaches 0 tr s ∧
      tr.map Prod.snd = firstStartEvents ++ answerEvents 1 ++ restartEvents 24 0x55 ∧
      s.sys.file = .report (words [3, 0, 0, 0, 0, 0]) ∧ ¬ s.Sound := by
  constructor
  · obtain ⟨tr, s, h, hl, hf, ho⟩ := exists_reaches
      (.run (.fileStart true) :: restartEvents 24 0x55)
      (fun r => r.2.sys.file = .report (List.replicate 24 0x55) ∧ r.2.origin 12 = none)
      (by decide +kernel)
    exact ⟨tr, s, h, hl, hf, not_sound_of_date hf (by decide) ho⟩
  · obtain ⟨tr, s, h, hl, hf, ho⟩ := exists_reaches
      (firstStartEvents ++ answerEvents 1 ++ restartEvents 24 0x55)
      (fun r => r.2.sys.file = .report (words [3, 0, 0, 0, 0, 0]) ∧ r.2.origin 12 = none)
      (by decide +kernel)
    exact ⟨tr, s, h, hl, hf, not_sound_of_date hf (by decide) ho⟩

end Powered

end SortingLine
