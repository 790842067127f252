import SortingLine.Controller.Equiv.System

/-!
# The display

`main` sends to the flush task every value it changes, through `output_datas_mq`, so the messages
sent so far, drawn in order, always show the values `main` has (`shows_displayed`).  What the flush
task draws is what it takes from the queue, which is what was sent unless a send found the queue
full.  When it is idle, the display therefore agrees with `main` if nothing was dropped
(`display_agrees_iff`); the two totals are shown from the first message that carries them on.
-/

namespace SortingLine

theorem Grid.drawAll_append (g : Grid) (ms ms' : List OutMsg) :
    g.drawAll (ms ++ ms') = (g.drawAll ms).drawAll ms' :=
  List.foldl_append

namespace Sys

variable {s s' : Sys} {a : Label} {tempAdc : UInt16} {disk : Disk} {tr : List (Sys × Label)}

/-! ### The messages sent, drawn in order -/

/-- The display messages sent so far; the first two are sent before the loop. -/
def displayed (tr : List (Sys × Label)) : List OutMsg :=
  [sendVThresholdMsg initRes, sendRtcMsg initInfo] ++ tr.flatMap fun x => outputs (effects x)

/-- The step makes `main` send the two totals: it weighs an item or takes a "restore" message. -/
def SendsTotals (x : Sys × Label) : Prop :=
  Weighs x ∨
  match x.2, x.1.mainMq.items with
  | .mainRecv _, .restore .. :: _ => True
  | _, _ => False

/-- A grid shows the values of `main`, the two totals once they were sent. -/
structure Shows (g : Grid) (m : Main) (sentTotals : Prop) : Prop where
  threshold : g 1 1 = some (.num m.res.vThreshold)
  date : g 2 3 = some (.date m.info.year m.info.mon m.info.day)
  totals : sentTotals →
    g 0 3 = some (.num m.info.total) ∧ g 1 3 = some (.num m.info.qualifiedAmount)
  blank : ¬ sentTotals → g 0 3 = none

theorem Shows.congr {g : Grid} {m m' : Main} {p p' : Prop} (h : Shows g m p)
    (hres : m'.res = m.res) (hinfo : m'.info = m.info) (hp : p' ↔ p) : Shows g m' p' :=
  ⟨by rw [hres]; exact h.threshold, by rw [hinfo]; exact h.date,
    fun ht => by rw [hinfo]; exact h.totals (hp.mp ht), fun ht => h.blank (hp.not.mp ht)⟩

/-- A message that changes a value makes `main` send it. -/
theorem Shows.recv {g : Grid} {m : Main} {p p' : Prop} (h : Shows g m p)
    (msg : MainMsg (NbRecord × Nat)) (after : UInt32)
    (hp : p' ↔ p ∨ ∃ total qualifiedAmount year mon,
      msg = .restore total qualifiedAmount year mon) :
    Shows (g.drawAll (outputs (m.recv msg after).2)) (m.recv msg after).1 p' := by
  obtain ⟨h₁, h₂, h₃, h₄⟩ := h
  cases msg with
  | restore total qualifiedAmount year mon =>
    have hp' : p' := hp.mpr (.inr ⟨_, _, _, _, rfl⟩)
    constructor <;> simp_all [Main.recv, outputs, Grid.drawAll, Grid.draw, Grid.set, sendRtcMsg,
      sendProductInfoMsg, setProductInfo]
  | _ =>
    simp only [reduceCtorEq, exists_false, or_false] at hp
    rw [hp]
    simp only [Main.recv]
    try split_ifs
    all_goals constructor <;> simp_all [outputs, Grid.drawAll, Grid.draw, Grid.set, sendCsq,
      sendRtcMsg, sendVThresholdMsg, sendMsgIdMsg, setDateTime]

/-- A weighing changes the totals and sends them. -/
theorem Shows.readWeigh {g : Grid} {m : Main} {p : Prop} (h : Shows g m p) (adc : Option UInt16) :
    Shows (g.drawAll (outputs (m.readWeigh adc).2)) (m.readWeigh adc).1 True := by
  obtain ⟨h₁, h₂, -, -⟩ := h
  constructor <;> simp_all [Main.readWeigh, Main.measure, outputs, Grid.drawAll, Grid.draw,
    Grid.set, sendDataMsg, setQualified, setVMeasure, addPorduct]

/-- **The messages sent so far show what `main` has.** -/
theorem shows_displayed (h : Reaches tempAdc disk tr s) :
    Shows (Grid.blank.drawAll (displayed tr)) s.main (∃ x ∈ tr, SendsTotals x) := by
  induction h with
  | start => constructor <;> simp [displayed, start, Main.start, Grid.drawAll, Grid.draw, Grid.set,
      Grid.blank, sendVThresholdMsg, sendRtcMsg]
  | @next tr s s' a hr ha ih =>
    have hd : Grid.blank.drawAll (displayed (tr ++ [(s, a)]))
        = (Grid.blank.drawAll (displayed tr)).drawAll (outputs (effects (s, a))) := by
      rw [← Grid.drawAll_append]
      simp [displayed]
    have hex : (∃ x ∈ tr ++ [(s, a)], SendsTotals x) ↔
        (∃ x ∈ tr, SendsTotals x) ∨ SendsTotals (s, a) := by
      simp [or_and_right, exists_or]
    rw [hd, hex]
    rcases step_records ha with ⟨m, after, rfl, hq, he, hm⟩ | ⟨adc, rfl, hpc, -, he, hm⟩ | hq
    · rw [he, hm]
      refine ih.recv m after (or_congr_right ?_)
      cases m <;> simp [SendsTotals, Weighs, hq]
    · rw [he, hm]
      exact (ih.readWeigh adc).congr rfl rfl (by simp [SendsTotals, Weighs, hpc])
    · rw [hq.outputs]
      refine ih.congr hq.res hq.info (or_iff_left ?_)
      rintro (hw | hr)
      · exact hq.not_weighs hw
      · cases a <;> first | exact hr | exact hq.not_recv _ rfl

/-! ### What the flush task draws -/

/-- The message that a step of the flush task takes out of `output_datas_mq`. -/
def flushTakes (x : Sys × Label) : List OutMsg :=
  match x.2 with
  | .flushRecv => x.1.outputDatasMq.items.take 1
  | _ => []

/-- One of the display messages that `main` sends in this step finds `output_datas_mq` full. -/
def OutputDropped (x : Sys × Label) : Prop :=
  outputs (effects x) ≠ [] ∧
    4 < x.1.outputDatasMq.items.length + (outputs (effects x)).length

instance : DecidablePred OutputDropped := fun _ => inferInstanceAs (Decidable (_ ∧ _))

/-- A step of the flush task takes a message or draws the one it has. -/
theorem step_flush (h : s.step a = some s') (ha : mover a = .flush) :
    (a = .flushRecv ∧ s.flush = none ∧ s'.grid = s.grid ∧
      ∃ m, s'.flush = some m ∧ s.outputDatasMq.items = m :: s'.outputDatasMq.items) ∨
    (a = .flushDraw ∧ s'.flush = none ∧ s'.outputDatasMq = s.outputDatasMq ∧
      ∃ m, s.flush = some m ∧ s'.grid = s.grid.draw m) := by
  replace h := step_spec h
  cases a with
  | flushRecv =>
    obtain ⟨m, q, hf, hq, rfl⟩ := h
    exact .inl ⟨rfl, hf, rfl, m, rfl, hq⟩
  | flushDraw =>
    obtain ⟨m, hf, rfl⟩ := h
    exact .inr ⟨rfl, rfl, rfl, m, hf, rfl⟩
  | _ => cases ha

/-- The history of `output_datas_mq`. -/
theorem flow_outputDatasMq (h : Reaches tempAdc disk tr s) : BQueue.Flow (displayed tr)
    (tr.flatMap flushTakes) s.outputDatasMq (∀ x ∈ tr, ¬ OutputDropped x) := by
  induction h with
  | start => exact ⟨List.Sublist.refl _, iff_of_true rfl (by simp)⟩
  | @next tr s s' a hr ha ih =>
    have hsent : displayed (tr ++ [(s, a)]) = displayed tr ++ outputs (effects (s, a)) := by
      simp [displayed]
    rw [hsent, List.flatMap_append, List.flatMap_singleton]
    have htake : a = .flushRecv → flushTakes (s, a) = s.outputDatasMq.items.take 1 := by
      rintro rfl
      rfl
    have hnone : a ≠ .flushRecv → flushTakes (s, a) = [] := by
      intro hn
      cases a <;> first | rfl | exact absurd rfl hn
    refine (ih.moves (moves_outputDatasMq ha) htake hnone).congr ?_
    rw [List.forall_mem_append, List.forall_mem_singleton]
    simp only [OutputDropped, ne_eq, not_and, Nat.not_lt, or_iff_not_imp_left]

/-- The grid shows the messages taken from `output_datas_mq`, but for the one being drawn. -/
theorem drawAll_flushTakes (h : Reaches tempAdc disk tr s) :
    Grid.blank.drawAll (tr.flatMap flushTakes) = s.grid.drawAll s.flush.toList := by
  induction h with
  | start => rfl
  | @next tr s s' a hr ha ih =>
    rw [List.flatMap_append, List.flatMap_singleton, Grid.drawAll_append, ih]
    by_cases hf : mover a = .flush
    · rcases step_flush ha hf with ⟨rfl, hn, hg, m, hm, hq⟩ | ⟨rfl, hn, -, m, hm, hg⟩
      · have ht : flushTakes (s, .flushRecv) = [m] := by simp [flushTakes, hq]
        rw [ht, hn, hm, hg]
        rfl
      · rw [hm, hn, hg]
        rfl
    · have ht : flushTakes (s, a) = [] := by cases a <;> first | rfl | exact absurd rfl hf
      have hfr := step_frame ha
      rw [ht, hfr.grid hf, hfr.flush hf]
      rfl

/-! ### Agreement -/

/-- The flush task takes one message and draws it. -/
def drawLabels : List Label := [.flushRecv, .flushDraw]

/-- `output_datas_mq` is empty and the flush task waits for a message. -/
def DisplayIdle (s : Sys) : Prop := s.outputDatasMq.items = [] ∧ s.flush = none

instance : DecidablePred DisplayIdle := fun _ => inferInstanceAs (Decidable (_ ∧ _))

/-- The cells (1,1), (0,3), (1,3) and (2,3) show the values `main` has. -/
structure DisplayAgrees (s : Sys) : Prop where
  threshold : s.grid 1 1 = some (.num s.main.res.vThreshold)
  total : s.grid 0 3 = some (.num s.main.info.total)
  qualifiedAmount : s.grid 1 3 = some (.num s.main.info.qualifiedAmount)
  date : s.grid 2 3 = some (.date s.main.info.year s.main.info.mon s.main.info.day)

/-- **When the display agrees.**  In a run in which no display message was dropped, an idle display
agrees with `main` exactly when `main` has weighed an item or restored the totals. -/
theorem display_agrees_iff (h : Reaches tempAdc disk tr s) (hd : ∀ x ∈ tr, ¬ OutputDropped x)
    (hi : DisplayIdle s) : DisplayAgrees s ↔ ∃ x ∈ tr, SendsTotals x := by
  obtain ⟨hq, hf⟩ := hi
  -- nothing dropped and nothing waiting: everything sent was drawn
  have hsent : tr.flatMap flushTakes = displayed tr := by
    simpa [hq] using (flow_outputDatasMq h).eq_iff.mpr hd
  have hshows := shows_displayed h
  rw [← hsent, drawAll_flushTakes h, hf] at hshows
  constructor
  · intro hagree
    by_contra hno
    have := hshows.blank hno
    rw [show Grid.drawAll s.grid (none : Option OutMsg).toList = s.grid from rfl,
      hagree.total] at this
    cases this
  · intro hsome
    obtain ⟨ht, hqa⟩ := hshows.totals hsome
    exact ⟨hshows.threshold, ht, hqa, hshows.date⟩

/-- The display after start-up, one batch begun and one item weighed. -/
theorem display_agrees_first_item : ∃ tr s, Reaches 0 ⟨false, none⟩ tr s ∧
    tr.map Prod.snd = drawLabels ++ drawLabels ++ grabLabels 3000 ++ weighLabels 2500
      ++ drawLabels ∧
    DisplayIdle s ∧ s.main.info.total = 1 ∧ DisplayAgrees s := by
  obtain ⟨tr, s, h, hl, hd, hi, ht, x, hx, hw⟩ := exists_reaches
    (drawLabels ++ drawLabels ++ grabLabels 3000 ++ weighLabels 2500 ++ drawLabels)
    (fun r => (∀ x ∈ r.1, ¬ OutputDropped x) ∧ DisplayIdle r.2 ∧ r.2.main.info.total = 1 ∧
      ∃ x ∈ r.1, Weighs x) (by decide +kernel)
  exact ⟨tr, s, h, hl, hi, ht, (display_agrees_iff h hd hi).mpr ⟨x, hx, .inl hw⟩⟩

/-- Five clicks while `main` waits in the delay of `case 1`: it then takes the five messages without
blocking, the fifth display message finds `output_datas_mq` full, and the display, idle again, shows
390 for a threshold of 400. -/
theorem display_stale_threshold : ∃ tr s, Reaches 0 ⟨false, none⟩ tr s ∧
    tr.map Prod.snd = drawLabels ++ drawLabels ++ grabLabels 3000 ++ weighLabels 2500 ++ drawLabels
      ++ List.replicate 5 (.onclick true) ++ resumeLabels ++ List.replicate 5 (.mainRecv 0)
      ++ drawLabels ++ drawLabels ++ drawLabels ++ drawLabels ∧
    DisplayIdle s ∧ s.grid 1 1 = some (.num 390) ∧ s.main.res.vThreshold = 400 ∧
    ¬ DisplayAgrees s := by
  obtain ⟨tr, s, h, hl, hi, hg, hv⟩ := exists_reaches
    (drawLabels ++ drawLabels ++ grabLabels 3000 ++ weighLabels 2500 ++ drawLabels
      ++ List.replicate 5 (.onclick true) ++ resumeLabels ++ List.replicate 5 (.mainRecv 0)
      ++ drawLabels ++ drawLabels ++ drawLabels ++ drawLabels)
    (fun r => DisplayIdle r.2 ∧ r.2.grid 1 1 = some (.num 390) ∧
      r.2.main.res.vThreshold = 400) (by decide +kernel)
  refine ⟨tr, s, h, hl, hi, hg, hv, fun hagree => ?_⟩
  have := hagree.threshold
  rw [hg, hv] at this
  exact absurd this (by decide)

end Sys

end SortingLine
