import SortingLine.Library.Run
import SortingLine.RtMq.Equiv.Typed
import SortingLine.Touch.Equiv.Samples
import SortingLine.Touch.Task

/-!
# Clicks are made of valid samples, if the last read is valid

A report is *valid* if its message is the calibrated median of at least twelve samples, each read
while the pen was down and each in range.  `touchscreen_click_task` reports a click for the passes
that `Pass.Clicks` describes (`exists_report_iff`), and such a report is valid just when all the
samples counted in the last read of the pass are in range (`valid_iff_consistent`): the rounds of
`read_xyz_coords` test one entry of each read, but use the entries of the last one.

In a run of the two tasks, then, what was put on the queue is valid, and every point that
`simple_gui_task` looks up is that of a valid report, just when the passes that click are consistent
(`clicks_valid_iff`).
-/

namespace SortingLine.Touch

variable {cfg : Config} {a : Pass} {r : Report} {s s' : State}

/-! ### A pass -/

/-- The coordinates of the message for the coordinates `x` and `y` of the samples. -/
def screenPoint (cfg : Config) (x y : ℕ) : Int32 × Int32 :=
  calibrateTouchValues cfg.tsCalCoords (.ofNat x) (.ofNat y)

/-- The message is the calibrated median of enough samples, and they are valid. -/
structure Report.Valid (cfg : Config) (r : Report) : Prop where
  enough : minSamples ≤ r.samples.length
  median_x : IsMedian mean (r.samples.map fun p => p.x.toNat) r.x
  median_y : IsMedian mean (r.samples.map fun p => p.y.toNat) r.y
  msg_x : r.msg.x = (screenPoint cfg r.x r.y).1.toUInt32.toUInt16
  msg_y : r.msg.y = (screenPoint cfg r.x r.y).2.toUInt32.toUInt16
  readDown : ∀ p ∈ r.samples, ReadDown r.pass.rounds p
  inRange : ∀ p ∈ r.samples, p.InRange

/-- The pass is a click: the event comes, the pen is still down 100 ms later, there are enough good
rounds, and the medians of the samples counted lie on the screen. -/
structure Pass.Clicks (cfg : Config) (a : Pass) : Prop where
  event : a.recv = touchClickEvent
  down : getTouchDown a.level = true
  enough : minSamples ≤ goodRounds a.rounds
  onScreen : ∀ x y, IsMedian mean ((counted a.rounds).map fun p => p.x.toNat) x →
    IsMedian mean ((counted a.rounds).map fun p => p.y.toNat) y →
    onScreen cfg (screenPoint cfg x y) = true

/-- The samples counted in the last read are in range. -/
def Pass.Consistent (a : Pass) : Prop := ∀ p ∈ counted a.rounds, p.InRange

instance (a : Pass) : Decidable a.Consistent := by
  unfold Pass.Consistent
  infer_instance

/-- What the task makes a report of. -/
structure Report.MadeOf (cfg : Config) (r : Report) (a : Pass) : Prop where
  pass_eq : r.pass = a
  samples_eq : r.samples = counted a.rounds
  median_x : IsMedian mean ((counted a.rounds).map fun p => p.x.toNat) r.x
  median_y : IsMedian mean ((counted a.rounds).map fun p => p.y.toNat) r.y
  msg_x : r.msg.x = (screenPoint cfg r.x r.y).1.toUInt32.toUInt16
  msg_y : r.msg.y = (screenPoint cfg r.x r.y).2.toUInt32.toUInt16

/-- The medians of a pass with enough good rounds. -/
theorem isMedian_counted (h : minSamples ≤ goodRounds a.rounds) :
    let m := measure (goodRounds a.rounds) (readXyzCoords a.rounds true).2.2
    IsMedian mean ((counted a.rounds).map fun p => p.x.toNat) m.1 ∧
      IsMedian mean ((counted a.rounds).map fun p => p.y.toNat) m.2.1 := by
  have hpos : 0 < goodRounds a.rounds := by
    unfold minSamples at h
    omega
  dsimp only
  rw [← take_readXyzCoords true hpos]
  refine isMedian_measure hpos ?_
  have hle := goodRounds_le a.rounds
  rw [readXyzCoords_eq true hpos]
  simpa [xpt2046Read] using hle

/-- A pass with the event, the pen down and enough good rounds ends with the test of the point. -/
theorem touchscreenClickTask_of_enough (he : a.recv = touchClickEvent)
    (hd : getTouchDown a.level = true) (hn : minSamples ≤ goodRounds a.rounds) :
    touchscreenClickTask cfg a =
      let m := measure (goodRounds a.rounds) (readXyzCoords a.rounds true).2.2
      let p := screenPoint cfg m.1 m.2.1
      if onScreen cfg p then
        some ⟨a, counted a.rounds, m.1, m.2.1,
          ⟨p.1.toUInt32.toUInt16, p.2.toUInt32.toUInt16, m.2.2⟩⟩
      else none := by
  have hpos : 0 < goodRounds a.rounds := by
    unfold minSamples at hn
    omega
  have hreaded := readed_readXyzCoords a.rounds true
  have htake := take_readXyzCoords true hpos
  unfold touchscreenClickTask
  rw [if_neg (not_not.mpr he), hd]
  generalize readXyzCoords a.rounds true = rs at hreaded htake ⊢
  obtain ⟨clickDown, readed, samp⟩ := rs
  obtain rfl : readed = goodRounds a.rounds := hreaded
  dsimp only at htake ⊢
  rw [if_pos hn, if_pos hn, htake]
  rfl

/-- Without them nothing is reported. -/
theorem touchscreenClickTask_of_not (h : ¬ (a.recv = touchClickEvent ∧
    getTouchDown a.level = true ∧ minSamples ≤ goodRounds a.rounds)) :
    touchscreenClickTask cfg a = none := by
  by_cases he : a.recv = touchClickEvent
  swap
  · exact if_pos he
  by_cases hd : getTouchDown a.level = true
  swap
  · simp [touchscreenClickTask, he, hd]
  have hn : ¬ minSamples ≤ goodRounds a.rounds := fun hn => h ⟨he, hd, hn⟩
  have hreaded := readed_readXyzCoords a.rounds true
  unfold touchscreenClickTask
  generalize readXyzCoords a.rounds true = rs at hreaded ⊢
  obtain ⟨clickDown, readed, samp⟩ := rs
  obtain rfl : readed = goodRounds a.rounds := hreaded
  -- the point is (0, 0), and the screen begins behind it
  have hzero : onScreen cfg (0, 0) = false := by simp [onScreen]
  simp [he, hd, hn, hzero]

/-- **What a report is made of.** -/
theorem madeOf_of_report (h : touchscreenClickTask cfg a = some r) :
    a.Clicks cfg ∧ r.MadeOf cfg a := by
  by_cases hc : a.recv = touchClickEvent ∧ getTouchDown a.level = true ∧
      minSamples ≤ goodRounds a.rounds
  · obtain ⟨he, hd, hn⟩ := hc
    obtain ⟨hx, hy⟩ := isMedian_counted hn
    rw [touchscreenClickTask_of_enough he hd hn] at h
    dsimp only at h hx hy
    split_ifs at h with hon
    cases h
    refine ⟨⟨he, hd, hn, fun x y hx' hy' => ?_⟩, ⟨rfl, rfl, hx, hy, rfl, rfl⟩⟩
    rw [hx'.unique hx, hy'.unique hy]
    exact hon
  · rw [touchscreenClickTask_of_not hc] at h
    cases h

/-- **A click is reported** for just the passes that are clicks. -/
theorem exists_report_iff : (∃ r, touchscreenClickTask cfg a = some r) ↔ a.Clicks cfg := by
  constructor
  · rintro ⟨r, hr⟩
    exact (madeOf_of_report hr).1
  · intro h
    obtain ⟨hx, hy⟩ := isMedian_counted h.enough
    have hon := h.onScreen _ _ hx hy
    rw [touchscreenClickTask_of_enough h.event h.down h.enough]
    exact ⟨_, if_pos hon⟩

/-- **A report is valid** just when the samples counted in the last read are in range. -/
theorem valid_iff_consistent (h : touchscreenClickTask cfg a = some r) :
    r.Valid cfg ↔ a.Consistent := by
  obtain ⟨hclick, hmade⟩ := madeOf_of_report h
  constructor
  · intro hv p hp
    rw [← hmade.samples_eq] at hp
    exact hv.inRange p hp
  · intro hc
    exact
      { enough := by
          rw [hmade.samples_eq, length_counted]
          exact hclick.enough
        median_x := by
          rw [hmade.samples_eq]
          exact hmade.median_x
        median_y := by
          rw [hmade.samples_eq]
          exact hmade.median_y
        msg_x := hmade.msg_x
        msg_y := hmade.msg_y
        readDown := fun p hp => by
          rw [hmade.samples_eq] at hp
          rw [hmade.pass_eq]
          exact readDown_of_mem_counted hp
        inRange := fun p hp => by
          rw [hmade.samples_eq] at hp
          exact hc p hp }

/-- A median of coordinates in range is in range. -/
theorem median_bounded {coord : TsMessage → UInt16} {samples : List TsMessage} {m : ℕ}
    (h : IsMedian mean (samples.map fun p => (coord p).toNat) m)
    (hin : ∀ p ∈ samples, 100 ≤ coord p ∧ coord p ≤ 4000) : 100 ≤ m ∧ m ≤ 4000 := by
  refine h.bounded mean_bounded fun v hv => ?_
  obtain ⟨p, hp, rfl⟩ := List.mem_map.mp hv
  obtain ⟨hle, hge⟩ := hin p hp
  exact ⟨UInt16.le_iff_toNat_le.mp hle, UInt16.le_iff_toNat_le.mp hge⟩

/-- The coordinates of a valid report are in range themselves. -/
theorem Report.Valid.bounded (h : r.Valid cfg) :
    (100 ≤ r.x ∧ r.x ≤ 4000) ∧ 100 ≤ r.y ∧ r.y ≤ 4000 :=
  ⟨median_bounded h.median_x fun p hp => (h.inRange p hp).1,
    median_bounded h.median_y fun p hp => (h.inRange p hp).2.1⟩

/-! ### The queue -/

/-- A buffer as a message. -/
def decode (b : List UInt8) : Option TsMessage := some (readMessage b)

theorem shortAt_shortBytes (w : UInt16) :
    UInt16.ofNat ((UInt8.ofNat w.toNat).toNat + 256 * (UInt8.ofNat (w.toNat / 256)).toNat) = w := by
  have hw := w.toNat_lt
  apply UInt16.toNat_inj.mp
  simp only [UInt16.toNat_ofNat', UInt8.toNat_ofNat']
  omega

theorem length_bytes (m : TsMessage) : m.bytes.length ≤ slotSize 6 := by
  have hlen : m.bytes.length = 6 := rfl
  rw [hlen]
  decide

theorem carries_bytes (m : TsMessage) : RtMq.Carries (slotSize 6) decode 6 m m.bytes := by
  rintro buffer ⟨rest, rfl⟩
  have hsize : min 6 (slotSize 6) = 6 := by decide
  rw [hsize, decode, Option.some_inj]
  change TsMessage.mk _ _ _ = m
  obtain ⟨x, y, z⟩ := m
  congr 1
  · exact shortAt_shortBytes x
  · exact shortAt_shortBytes y
  · exact shortAt_shortBytes z

/-- **Sending**: the message is put on the queue, behind what is there or alone. -/
theorem conveys_sendMessage {mq : TouchQueue} {q : BQueue TsMessage tsMessageMax} (m : TsMessage)
    (h : mq.Conveys decode 6 q) : ∃ q', (sendMessage mq m).Conveys decode 6 q' ∧
      (q'.items = q.items ++ [m] ∨ q'.items = [m]) := by
  have hlen := length_bytes m
  unfold sendMessage
  cases hf : mq.free with
  | nil =>
    -- the queue is full: it is cleared
    rw [RtMq.send_of_free_nil hlen hf]
    refine ⟨BQueue.send .empty m, ?_, ?_⟩
    · exact RtMq.conveys_send (RtMq.conveys_of_queue_nil rfl) hlen (carries_bytes m)
    · right
      exact BQueue.items_send_of_not_full (by simp [BQueue.Full, tsMessageMax]) m
  | cons slot free =>
    obtain ⟨hok, -⟩ := RtMq.send_of_free_cons hlen hf
    have hc := RtMq.conveys_send h hlen (carries_bytes m)
    refine ⟨q.send m, ?_, ?_⟩
    · dsimp only
      rw [if_neg (not_not.mpr hok)]
      exact hc
    · left
      refine BQueue.items_send_of_not_full ?_ m
      obtain ⟨qb, href, hforall⟩ := h
      have hlenq := hforall.length_eq
      intro hfull
      have hfull' : BQueue.Full qb := by
        unfold BQueue.Full at hfull ⊢
        omega
      have hefull := (RtMq.send_eq_efull_iff href hlen).mpr hfull'
      rw [hok] at hefull
      cases hefull

/-! ### Runs -/

/-- The message is that of a report. -/
def State.Reported (s : State) (m : TsMessage) : Prop := ∃ r ∈ s.reports, r.msg = m

/-- What is on the queue, and what was taken from it, are messages of reports. -/
structure State.Kept (s : State) : Prop where
  queued : ∃ q, s.queue.Conveys decode 6 q ∧ ∀ m ∈ q.items, s.Reported m
  clicked : ∀ c ∈ s.clicks, ∃ m, s.Reported m ∧ c = (m.x, m.y)

theorem kept_start (pool : Vector (Vector UInt8 (slotSize 6)) tsMessageMax) (msg : List UInt8) :
    (State.start pool msg).Kept where
  queued := ⟨.empty, RtMq.conveys_of_queue_nil rfl, by simp⟩
  clicked := by simp [State.start]

/-- The state after a report was put on the queue. -/
def State.put (s : State) (r : Report) : State :=
  { s with queue := sendMessage s.queue r.msg, reports := s.reports ++ [r] }

theorem State.Reported.put {m : TsMessage} (h : s.Reported m) (r : Report) :
    (s.put r).Reported m := by
  obtain ⟨r', hr, hm⟩ := h
  exact ⟨r', List.mem_append_left _ hr, hm⟩

theorem State.reported_put (s : State) (r : Report) : (s.put r).Reported r.msg :=
  ⟨r, List.mem_append_right _ (List.mem_singleton_self r), rfl⟩

theorem State.Kept.put (h : s.Kept) (r : Report) : (s.put r).Kept := by
  obtain ⟨⟨q, hq, hqueued⟩, hclicked⟩ := h
  constructor
  · obtain ⟨q', hq', hitems⟩ := conveys_sendMessage r.msg hq
    refine ⟨q', hq', fun m hm => ?_⟩
    rcases hitems with hitems | hitems <;> rw [hitems] at hm
    · rcases List.mem_append.mp hm with hm | hm
      · exact (hqueued m hm).put r
      · rw [List.mem_singleton.mp hm]
        exact s.reported_put r
    · rw [List.mem_singleton.mp hm]
      exact s.reported_put r
  · intro c hc
    obtain ⟨m, hm, hcm⟩ := hclicked c hc
    exact ⟨m, hm.put r, hcm⟩

/-- `simple_gui_task` takes a message. -/
theorem State.Kept.take {msg : List UInt8} {queue : TouchQueue} (h : s.Kept)
    (hr : s.queue.recv s.msg 6 = some (msg, queue)) :
    let m := readMessage msg
    { s with queue, msg, clicks := s.clicks ++ [(m.x, m.y)] : State }.Kept := by
  obtain ⟨⟨q, hq, hqueued⟩, hclicked⟩ := h
  obtain ⟨m, q', hrecv, hq', hm⟩ := RtMq.recv_conveys hq hr
  rw [BQueue.recv_eq_some] at hrecv
  obtain rfl : readMessage msg = m := Option.some.inj hm
  have hreported : s.Reported (readMessage msg) := hqueued _ (by simp [hrecv])
  constructor
  · exact ⟨q', hq', fun m hm => hqueued m (by simp [hrecv, hm])⟩
  · intro c hc
    rcases List.mem_append.mp hc with hc | hc
    · exact hclicked c hc
    · exact ⟨_, hreported, List.mem_singleton.mp hc⟩

/-- **What a move does.** -/
theorem step_cases {m : Move} (h : step cfg s m = some s') :
    (∃ a, m = .touch a ∧ ((touchscreenClickTask cfg a = none ∧ s' = s) ∨
      ∃ r, touchscreenClickTask cfg a = some r ∧ s' = s.put r)) ∨
    (m = .gui ∧ s'.reports = s.reports ∧ (s.Kept → s'.Kept)) := by
  cases m with
  | touch a =>
    left
    refine ⟨a, rfl, ?_⟩
    cases hr : touchscreenClickTask cfg a with
    | none => exact .inl ⟨rfl, by simpa [step, hr] using h.symm⟩
    | some r => exact .inr ⟨r, rfl, by simpa [step, hr, State.put] using h.symm⟩
  | gui =>
    right
    refine ⟨rfl, ?_⟩
    unfold step at h
    cases hr : s.queue.recv s.msg 6 with
    | none =>
      rw [hr] at h
      cases h
      exact ⟨rfl, id⟩
    | some res =>
      obtain ⟨msg, queue⟩ := res
      rw [hr] at h
      cases h
      exact ⟨rfl, fun hk => hk.take hr⟩

theorem kept_step {m : Move} (h : s.Kept) (hs : step cfg s m = some s') : s'.Kept := by
  obtain ⟨a, -, ⟨-, rfl⟩ | ⟨r, -, rfl⟩⟩ | ⟨-, -, hkept⟩ := step_cases hs
  · exact h
  · exact h.put r
  · exact hkept h

/-- What was put on the queue is valid, and so are the points that were looked up. -/
structure State.Sound (cfg : Config) (s : State) : Prop where
  reported : ∀ r ∈ s.reports, r.Valid cfg
  clicked : ∀ c ∈ s.clicks, ∃ r ∈ s.reports, r.Valid cfg ∧ c = (r.msg.x, r.msg.y)

theorem State.Kept.sound_iff_reported (h : s.Kept) :
    s.Sound cfg ↔ ∀ r ∈ s.reports, r.Valid cfg := by
  refine ⟨State.Sound.reported, fun hv => ⟨hv, fun c hc => ?_⟩⟩
  obtain ⟨m, ⟨r, hr, rfl⟩, hcm⟩ := h.clicked c hc
  exact ⟨r, hr, hv r hr, hcm⟩

/-- A pass that is a click finds the samples that it counts in range. -/
def Move.Consistent (cfg : Config) : Move → Prop
  | .touch a => a.Clicks cfg → a.Consistent
  | .gui => True

/-- **A move keeps what is reported valid** just when it is consistent. -/
theorem sound_step_iff {m : Move} (hk : s.Kept) (hsound : s.Sound cfg)
    (hs : step cfg s m = some s') : s'.Sound cfg ↔ m.Consistent cfg := by
  have hv := hk.sound_iff_reported.mp hsound
  rw [(kept_step hk hs).sound_iff_reported]
  obtain ⟨a, rfl, ⟨hnone, rfl⟩ | ⟨r, hr, rfl⟩⟩ | ⟨rfl, hreports, -⟩ := step_cases hs
  · -- no click
    refine iff_of_true hv fun hclick => ?_
    obtain ⟨r, hr⟩ := exists_report_iff.mpr hclick
    rw [hnone] at hr
    cases hr
  · change (∀ r' ∈ s.reports ++ [r], r'.Valid cfg) ↔ (a.Clicks cfg → a.Consistent)
    rw [List.forall_mem_append, List.forall_mem_singleton, valid_iff_consistent hr]
    have hclick : a.Clicks cfg := exists_report_iff.mp ⟨r, hr⟩
    exact ⟨fun h _ => h.2, fun h => ⟨hv, h hclick⟩⟩
  · rw [hreports]
    exact iff_of_true hv trivial

variable {pool : Vector (Vector UInt8 (slotSize 6)) tsMessageMax} {msg : List UInt8}
  {tr : List (State × Move)}

/-- **Clicks come from valid samples** in every state of a run just when every pass of it that
clicks finds the samples that it counts in range. -/
theorem clicks_valid_iff (h : Run (step cfg) (.start pool msg) tr s) :
    ((∀ x ∈ tr, x.1.Sound cfg) ∧ s.Sound cfg) ↔ ∀ x ∈ tr, x.2.Consistent cfg := by
  have hstart : (State.start pool msg).Sound cfg := by
    constructor <;> simp [State.start]
  refine h.forall_iff (C := fun x => x.2.Consistent cfg) hstart ?_
  intro tr s m s' hr hsound hs
  have hk : s.Kept := hr.invariant (kept_start pool msg) fun _ _ _ hk hs => kept_step hk hs
  exact sound_step_iff hk hsound hs

/-! ### Examples -/

/-- A chip that answers a read with these points. -/
def answersOf (p : ℕ → TsMessage) : Answers := fun readed cmd =>
  let val := if cmd = cmdReadX then (p readed).x else if cmd = cmdReadY then (p readed).y
    else (p readed).z
  ((val >>> 5).toUInt8, val.toUInt8 <<< 3)

/-- A screen of 800 by 480 pixels that was not calibrated. -/
def plainScreen : Config := ⟨fun _ => 0, 800, 480⟩

/-- The pen rests on a point. -/
def restingPass : Pass :=
  ⟨touchClickEvent, false, fun _ => ⟨false, answersOf fun _ => ⟨400, 300, 200⟩⟩⟩

/-- The pen rests for twelve rounds; the read of the thirteenth is out of range. -/
def liftingPass : Pass :=
  ⟨touchClickEvent, false, fun k =>
    ⟨false, answersOf fun _ => if k < 12 then ⟨400, 300, 200⟩ else ⟨50, 60, 200⟩⟩⟩

/-- A pool of cleared messages. -/
def clearedPool : Vector (Vector UInt8 (slotSize 6)) tsMessageMax := .replicate _ (.replicate _ 0)

/-- A cleared buffer for a message. -/
def clearedMsg : List UInt8 := List.replicate 6 0

theorem exists_run (cfg : Config) (moves : List Move) (p : List (State × Move) × State → Prop)
    [DecidablePred p]
    (h : (exec (step cfg) (.start clearedPool clearedMsg) moves).any (fun r => p r) = true) :
    ∃ tr s, Run (step cfg) (.start clearedPool clearedMsg) tr s ∧ tr.map Prod.snd = moves ∧
      p (tr, s) :=
  exists_run_of_exec moves p h

theorem clicks_valid_iff_resting : ∃ tr s,
    Run (step plainScreen) (.start clearedPool clearedMsg) tr s ∧ s.clicks = [(400, 300)] ∧
      (∀ x ∈ tr, x.1.Sound plainScreen) ∧ s.Sound plainScreen := by
  obtain ⟨tr, s, hr, hmoves, hclicks⟩ := exists_run plainScreen [.touch restingPass, .gui]
    (fun r => r.2.clicks = [(400, 300)]) (by decide)
  refine ⟨tr, s, hr, hclicks, (clicks_valid_iff hr).mpr fun x hx => ?_⟩
  have hmove : x.2 ∈ [Move.touch restingPass, .gui] := by
    rw [← hmoves]
    exact List.mem_map_of_mem hx
  simp only [List.mem_cons, List.not_mem_nil, or_false] at hmove
  rcases hmove with hmove | hmove <;> rw [hmove]
  · intro _
    decide
  · trivial

/-- The thirteenth read ends the loop, and its points are what the twelve samples are. -/
theorem not_sound_lifting : ∃ tr s, Run (step plainScreen) (.start clearedPool clearedMsg) tr s ∧
    s.clicks = [(50, 60)] ∧ ¬ s.Sound plainScreen := by
  obtain ⟨tr, s, hr, -, hclicks, hreports⟩ := exists_run plainScreen [.touch liftingPass, .gui]
    (fun r => r.2.clicks = [(50, 60)] ∧ r.2.reports.map Report.x = [50]) (by decide)
  refine ⟨tr, s, hr, hclicks, fun hsound => ?_⟩
  have hx : 50 ∈ s.reports.map Report.x := by simp [hreports]
  obtain ⟨r, hr, hrx⟩ := List.mem_map.mp hx
  -- no valid samples have this median
  have hle : 100 ≤ r.x := (hsound.reported r hr).bounded.1.1
  omega

end SortingLine.Touch
