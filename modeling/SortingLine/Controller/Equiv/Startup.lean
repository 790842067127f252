import SortingLine.Controller.Equiv.Batch

/-!
# Start-up

After start-up three things happen in any order: the file thread reports the log, the NB thread
reports the date, and the line starts to weigh.  `main` handles one message after the other
(`main_eq_handleAll`), so what counts is the order of the messages in `main_mq`.

`set_product_info` overwrites the totals and the date.  The items weighed before the "restore"
message are therefore lost, and so is a network date that came before it (`startup_info_iff`); what
comes after it is counted right.
-/

namespace SortingLine

namespace Main

variable {τ : Type}

/-! ### One iteration -/

/-- The verdict on the item that an iteration weighs, if it weighs one. -/
def weighing (m : Main) (d : Delivery τ) : List UInt32 :=
  if (m.recv d.msg d.after).1.pc = .readWeigh then [(m.handle d).res.qualified] else []

/-- The verdicts on the items weighed while a list of messages is handled. -/
def weighings (m : Main) : List (Delivery τ) → List UInt32
  | [] => []
  | d :: ds => m.weighing d ++ weighings (m.handle d) ds

/-- The records that the display and the reports use do not steer the loop. -/
def control (m : Main) : Main := { m with info := initInfo, stat := initStat }

variable {m m' : Main}

theorem handle_of_weigh {d : Delivery τ} (hd : d.msg = .weigh) (hc : m.ctrlFlow ≠ 0) :
    m.handle d = { (m.readWeigh d.adc).1 with
      pc := .recv
      adcMeasureCount := m.adcMeasureCount - 1
      ctrlFlow := if m.adcMeasureCount - 1 = 0 then 0 else m.ctrlFlow } := by
  have hrecv : (m.recv d.msg d.after).1 = { m with pc := .readWeigh } := by simp [recv, hd, hc]
  unfold handle
  rw [hrecv]
  by_cases h : m.adcMeasureCount - 1 = 0 <;> simp [wake, readWeigh, measure, h]

theorem handle_of_grabbed {d : Delivery τ} (hd : d.msg = .grabbed) (hc : m.ctrlFlow = 0) :
    m.handle d = m.readGrab d.adc := by
  simp [handle, recv, hd, hc, readGrab]

theorem handle_of_other {d : Delivery τ} (hpc : m.pc = .recv)
    (hw : ¬ (d.msg = .weigh ∧ m.ctrlFlow ≠ 0)) (hg : ¬ (d.msg = .grabbed ∧ m.ctrlFlow = 0)) :
    m.handle d = (m.recv d.msg d.after).1 := by
  have h : (m.recv d.msg d.after).1.pc = .recv := by
    rcases m.recv_pc d.msg d.after with ⟨h₁, h₂, -⟩ | ⟨h₁, h₂, -⟩ | ⟨-, -, h⟩
    · exact absurd ⟨h₁, h₂⟩ hw
    · exact absurd ⟨h₁, h₂⟩ hg
    · rw [h, hpc]
  unfold handle
  simp only [h]

theorem handle_pc (hpc : m.pc = .recv) (d : Delivery τ) : (m.handle d).pc = .recv := by
  unfold handle
  rcases m.recv_pc d.msg d.after with ⟨-, -, h⟩ | ⟨-, -, h⟩ | ⟨-, -, h⟩
  · simp only [h]
  · simp only [h, readGrab]
  · rw [hpc] at h
    simp only [h]

theorem qualified_setQualified (r : ResParas) :
    (setQualified r).qualified = 0 ∨ (setQualified r).qualified = 1 := by
  unfold setQualified
  split_ifs <;> simp

/-- An iteration that weighs an item counts it. -/
theorem info_handle_of_weigh {d : Delivery τ} (hd : d.msg = .weigh) (hc : m.ctrlFlow ≠ 0) :
    ∃ q, m.weighing d = [q] ∧ (q = 0 ∨ q = 1) ∧ (m.handle d).info = { m.info with
      total := m.info.total + 1, qualifiedAmount := m.info.qualifiedAmount + q } := by
  refine ⟨(m.measure (d.adc.getD m.tempAdc)).qualified, ?_, ?_, ?_⟩
  · have hpc : (m.recv d.msg d.after).1.pc = .readWeigh := by simp [recv, hd, hc]
    rw [weighing, if_pos hpc, handle_of_weigh hd hc]
    rfl
  · exact qualified_setQualified _
  · rw [handle_of_weigh hd hc]
    rfl

theorem weighing_of_ne {d : Delivery τ} (hpc : m.pc = .recv)
    (hw : ¬ (d.msg = .weigh ∧ m.ctrlFlow ≠ 0)) : m.weighing d = [] := by
  rw [weighing, if_neg]
  rcases m.recv_pc d.msg d.after with ⟨h₁, h₂, -⟩ | ⟨-, -, h⟩ | ⟨-, -, h⟩
  · exact absurd ⟨h₁, h₂⟩ hw
  · simp [h]
  · simp [h, hpc]

/-- The other iterations do to the records what their `case` does. -/
theorem info_handle_of_ne {d : Delivery τ} (hpc : m.pc = .recv)
    (hw : ¬ (d.msg = .weigh ∧ m.ctrlFlow ≠ 0)) :
    (m.handle d).info = (m.recv d.msg d.after).1.info := by
  by_cases hg : d.msg = .grabbed ∧ m.ctrlFlow = 0
  · rw [handle_of_grabbed hg.1 hg.2, hg.1]
    simp [recv, hg.2, readGrab]
  · rw [handle_of_other hpc hw hg]

/-! ### What steers the loop -/

theorem control_handle (hpc : m.pc = .recv) (d : Delivery τ) :
    (m.handle d).control = (m.control.handle d).control := by
  by_cases hw : d.msg = .weigh ∧ m.ctrlFlow ≠ 0
  · have hc' : m.control.ctrlFlow ≠ 0 := hw.2
    rw [handle_of_weigh hw.1 hw.2, handle_of_weigh hw.1 hc']
    rfl
  by_cases hg : d.msg = .grabbed ∧ m.ctrlFlow = 0
  · have hc' : m.control.ctrlFlow = 0 := hg.2
    rw [handle_of_grabbed hg.1 hg.2, handle_of_grabbed hg.1 hc']
    rfl
  · rw [handle_of_other hpc hw hg, handle_of_other (m := m.control) hpc hw hg]
    cases d.msg with
    | weigh => by_cases hc : m.ctrlFlow = 0 <;> simp [recv, control, hc]
    | grabbed => by_cases hc : m.ctrlFlow = 0 <;> simp [recv, control, hc]
    | _ => rfl

theorem weighing_control (hpc : m.pc = .recv) (d : Delivery τ) :
    m.control.weighing d = m.weighing d := by
  have hcontrol : (m.control.handle d).control.res = (m.handle d).control.res := by
    rw [control_handle hpc d]
  have hres : (m.control.handle d).res = (m.handle d).res := hcontrol
  have hrecv : (m.control.recv d.msg d.after).1.pc = (m.recv d.msg d.after).1.pc := by
    cases d.msg <;> by_cases hc : m.ctrlFlow = 0 <;> simp [recv, control, hc]
  rw [weighing, weighing, hres, hrecv]

/-- What is weighed does not depend on the statistics. -/
theorem weighings_congr (hpc : m.pc = .recv) (h : m'.control = m.control) (ds : List (Delivery τ)) :
    m'.weighings ds = m.weighings ds := by
  -- the two runs differ in the records that do not steer the loop, and go on doing so
  induction ds generalizing m m' with
  | nil => rfl
  | cons d ds ih =>
    have hpc' : m'.pc = .recv := (congrArg Main.pc h).trans hpc
    have hd : m'.weighing d = m.weighing d := by
      rw [← weighing_control hpc', ← weighing_control hpc, h]
    have hs : (m'.handle d).control = (m.handle d).control := by
      rw [control_handle hpc', control_handle hpc, h]
    rw [weighings, weighings, hd, ih (handle_pc hpc d) hs]

/-- The "restore" and "date" messages do not steer the loop. -/
theorem control_handle_of_info {d : Delivery τ} (hpc : m.pc = .recv)
    (h : (∃ D, d.msg = .date D) ∨ ∃ total qualifiedAmount year mon,
      d.msg = .restore total qualifiedAmount year mon) :
    (m.handle d).control = m.control ∧ m.weighing d = [] := by
  have hw : ¬ (d.msg = .weigh ∧ m.ctrlFlow ≠ 0) := by
    rcases h with ⟨_, h⟩ | ⟨_, _, _, _, h⟩ <;> simp [h]
  have hg : ¬ (d.msg = .grabbed ∧ m.ctrlFlow = 0) := by
    rcases h with ⟨_, h⟩ | ⟨_, _, _, _, h⟩ <;> simp [h]
  refine ⟨?_, weighing_of_ne hpc hw⟩
  rw [handle_of_other hpc hw hg]
  rcases h with ⟨_, h⟩ | ⟨_, _, _, _, h⟩ <;> rw [h] <;> rfl

/-! ### All iterations -/

theorem handleAll_pc (hpc : m.pc = .recv) (ds : List (Delivery τ)) :
    (m.handleAll ds).pc = .recv := by
  induction ds generalizing m with
  | nil => exact hpc
  | cons d ds ih => exact ih (handle_pc hpc d)

theorem handleAll_concat (m : Main) (ds : List (Delivery τ)) (d : Delivery τ) :
    m.handleAll (ds ++ [d]) = (m.handleAll ds).handle d := by
  simp [handleAll]

theorem weighings_append (m : Main) (ds ds' : List (Delivery τ)) :
    m.weighings (ds ++ ds') = m.weighings ds ++ (m.handleAll ds).weighings ds' := by
  induction ds generalizing m with
  | nil => rfl
  | cons d ds ih =>
    rw [List.cons_append, weighings, ih, weighings, List.append_assoc]
    rfl

/-- The messages of the weighing line. -/
def isWeighing : MainMsg τ → Bool
  | .weigh | .grabbed => true
  | _ => false

/-- The messages of start-up: the weighing line, the date, the restored statistics. -/
def IsStartup (msg : MainMsg τ) : Prop :=
  isWeighing msg = true ∨ (∃ D, msg = .date D) ∨ ∃ total qualifiedAmount year mon,
    msg = .restore total qualifiedAmount year mon

/-- What is weighed depends on the messages of the weighing line alone. -/
theorem weighings_filter (hpc : m.pc = .recv) {ds : List (Delivery τ)}
    (h : ∀ d ∈ ds, IsStartup d.msg) :
    m.weighings (ds.filter fun d => isWeighing d.msg) = m.weighings ds := by
  induction ds generalizing m with
  | nil => rfl
  | cons d ds ih =>
    have hds : ∀ d ∈ ds, IsStartup d.msg := fun d' hd' => h d' (List.mem_cons_of_mem _ hd')
    by_cases hd : isWeighing d.msg = true
    · rw [List.filter_cons, if_pos hd, weighings, weighings, ih (handle_pc hpc d) hds]
    · -- another message weighs nothing, and what follows weighs the same without it
      obtain ⟨hc, hw⟩ := control_handle_of_info hpc
        ((h d (List.mem_cons_self ..)).resolve_left hd)
      rw [List.filter_cons, if_neg hd, weighings, hw, List.nil_append, ih hpc hds,
        weighings_congr hpc hc]

theorem recv_info_of_isWeighing {msg : MainMsg τ} (h : isWeighing msg = true) (after : UInt32) :
    (m.recv msg after).1.info = m.info := by
  cases msg <;> simp only [isWeighing, Bool.false_eq_true] at h <;> simp only [recv] <;>
    split_ifs <;> rfl

/-- Without a "restore" message the totals count the items weighed. -/
theorem totals_handleAll (hpc : m.pc = .recv) {ds : List (Delivery τ)}
    (h : ∀ d ∈ ds, isWeighing d.msg = true ∨ ∃ D, d.msg = .date D) :
    (m.handleAll ds).info.total = m.info.total + UInt32.ofNat (m.weighings ds).length ∧
    (m.handleAll ds).info.qualifiedAmount
      = m.info.qualifiedAmount + UInt32.ofNat ((m.weighings ds).count 1) := by
  induction ds generalizing m with
  | nil => exact ⟨(UInt32.add_zero _).symm, (UInt32.add_zero _).symm⟩
  | cons d ds ih =>
    obtain ⟨ht, hq⟩ := ih (handle_pc hpc d) fun d' hd' => h d' (List.mem_cons_of_mem _ hd')
    have hall : m.handleAll (d :: ds) = (m.handle d).handleAll ds := rfl
    rw [hall, ht, hq, weighings, List.length_append, List.count_append, UInt32.ofNat_add,
      UInt32.ofNat_add, ← UInt32.add_assoc, ← UInt32.add_assoc]
    by_cases hw : d.msg = .weigh ∧ m.ctrlFlow ≠ 0
    · obtain ⟨q, hwq, hq01, hinfo⟩ := info_handle_of_weigh hw.1 hw.2
      rw [hinfo, hwq]
      rcases hq01 with rfl | rfl <;> exact ⟨rfl, rfl⟩
    · rw [weighing_of_ne hpc hw, info_handle_of_ne hpc hw]
      have hkeep : (m.recv d.msg d.after).1.info.total = m.info.total ∧
          (m.recv d.msg d.after).1.info.qualifiedAmount = m.info.qualifiedAmount := by
        rcases h d (List.mem_cons_self ..) with hd | ⟨D, hd⟩
        · rw [recv_info_of_isWeighing hd]
          exact ⟨rfl, rfl⟩
        · rw [hd]
          exact ⟨rfl, rfl⟩
      rw [hkeep.1, hkeep.2]
      simp

/-- The date of a record. -/
def dateOf (p : ProductInfo) : UInt32 × UInt32 × UInt32 := (p.year, p.mon, p.day)

/-- The date that the network reports with the characters `D`. -/
def networkDate (D : Vector UInt8 8) : UInt32 × UInt32 × UInt32 := dateOf (setDateTime D initInfo)

theorem dateOf_handle_of_isWeighing {d : Delivery τ} (hpc : m.pc = .recv)
    (hd : isWeighing d.msg = true) : dateOf (m.handle d).info = dateOf m.info := by
  by_cases hw : d.msg = .weigh ∧ m.ctrlFlow ≠ 0
  · obtain ⟨q, -, -, hinfo⟩ := info_handle_of_weigh hw.1 hw.2
    rw [hinfo]
    rfl
  · rw [info_handle_of_ne hpc hw, recv_info_of_isWeighing hd]

theorem dateOf_handle_of_date {d : Delivery τ} {D : Vector UInt8 8} (hpc : m.pc = .recv)
    (hd : d.msg = .date D) : dateOf (m.handle d).info = networkDate D := by
  rw [info_handle_of_ne hpc (by simp [hd]), hd]
  rfl

/-- Without a "restore" message the date is that of the network, once it has come. -/
theorem dateOf_handleAll (hpc : m.pc = .recv) {D : Vector UInt8 8} {ds : List (Delivery τ)}
    (h : ∀ d ∈ ds, isWeighing d.msg = true ∨ d.msg = .date D) :
    ((∃ d ∈ ds, d.msg = .date D) → dateOf (m.handleAll ds).info = networkDate D) ∧
    ((¬ ∃ d ∈ ds, d.msg = .date D) → dateOf (m.handleAll ds).info = dateOf m.info) := by
  induction ds generalizing m with
  | nil => simp [handleAll]
  | cons d ds ih =>
    obtain ⟨hyes, hno⟩ := ih (handle_pc hpc d) fun d' hd' => h d' (List.mem_cons_of_mem _ hd')
    have hall : m.handleAll (d :: ds) = (m.handle d).handleAll ds := rfl
    rw [hall]
    constructor
    · rintro ⟨d', hd', he⟩
      by_cases hex : ∃ d ∈ ds, d.msg = .date D
      · exact hyes hex
      · -- the date is this message
        rcases List.mem_cons.mp hd' with rfl | hd'
        · rw [hno hex, dateOf_handle_of_date hpc he]
        · exact absurd ⟨d', hd', he⟩ hex
    · intro hn
      have hd : d.msg ≠ .date D := fun he => hn ⟨d, List.mem_cons_self .., he⟩
      have hex : ¬ ∃ d ∈ ds, d.msg = .date D := by
        rintro ⟨d', hd', he⟩
        exact hn ⟨d', List.mem_cons_of_mem _ hd', he⟩
      rw [hno hex, dateOf_handle_of_isWeighing hpc
        ((h d (List.mem_cons_self ..)).resolve_right hd)]

/-! ### Start-up -/

/-- What the statistics should be after start-up: the restored totals, plus the items that the
messages of the weighing line made `main` weigh, and the date of the network. -/
structure Restored (info : ProductInfo) (total qualifiedAmount : UInt32) (D : Vector UInt8 8)
    (items : List UInt32) : Prop where
  total : info.total = total + UInt32.ofNat items.length
  qualifiedAmount : info.qualifiedAmount = qualifiedAmount + UInt32.ofNat (items.count 1)
  date : dateOf info = networkDate D

section Startup

variable {total qualifiedAmount year mon : UInt32} {D : Vector UInt8 8} {r : Delivery τ}

/-- What is weighed during start-up, before and after the "restore" message. -/
theorem weighings_startup {pre post : List (Delivery τ)} (hpc : m.pc = .recv)
    (hr : r.msg = .restore total qualifiedAmount year mon)
    (hmsg : ∀ d ∈ pre ++ post, isWeighing d.msg = true ∨ d.msg = .date D) :
    m.weighings ((pre ++ r :: post).filter fun d => isWeighing d.msg)
      = m.weighings pre ++ ((m.handleAll pre).handle r).weighings post := by
  have hstartup : ∀ d ∈ pre ++ r :: post, IsStartup d.msg := by
    intro d hd
    rcases List.mem_append.mp hd with hd | hd
    · exact (hmsg d (List.mem_append_left _ hd)).imp_right fun h => .inl ⟨D, h⟩
    · rcases List.mem_cons.mp hd with rfl | hd
      · exact .inr (.inr ⟨_, _, _, _, hr⟩)
      · exact (hmsg d (List.mem_append_right _ hd)).imp_right fun h => .inl ⟨D, h⟩
  have hw := (control_handle_of_info (handleAll_pc hpc pre) (.inr ⟨_, _, _, _, hr⟩)).2
  rw [weighings_filter hpc hstartup, weighings_append, weighings, hw, List.nil_append]

theorem add_eq_add_add_iff (x a b : UInt32) : x + b = x + (a + b) ↔ a = 0 := by
  constructor
  · intro h
    grind
  · rintro rfl
    simp

/-- **When start-up loses nothing.**  Whatever the order in which `main` takes one "restore"
message, the network date and any messages of the weighing line, the statistics come out right
exactly when the items weighed before the "restore" message, and the good ones among them, are none
(or a multiple of 2³²), and the date came after it or is the restored one. -/
theorem startup_info_iff (tempAdc : UInt16) (pre post : List (Delivery τ))
    (hr : r.msg = .restore total qualifiedAmount year mon)
    (hmsg : ∀ d ∈ pre ++ post, isWeighing d.msg = true ∨ d.msg = .date D) :
    Restored ((start tempAdc).handleAll (pre ++ r :: post)).info total qualifiedAmount D
      ((start tempAdc).weighings ((pre ++ r :: post).filter fun d => isWeighing d.msg)) ↔
    UInt32.ofNat ((start tempAdc).weighings pre).length = 0 ∧
    UInt32.ofNat (((start tempAdc).weighings pre).count 1) = 0 ∧
    ((∃ d ∈ post, d.msg = .date D) ∨ (year, mon, r.after) = networkDate D) := by
  have hpc : (start tempAdc).pc = .recv := rfl
  generalize start tempAdc = m at *
  rw [weighings_startup hpc hr hmsg]
  have hpost : ∀ d ∈ post, isWeighing d.msg = true ∨ d.msg = .date D :=
    fun d hd => hmsg d (List.mem_append_right _ hd)
  -- the "restore" message sets the statistics, whatever they were
  have hall : m.handleAll (pre ++ r :: post) = ((m.handleAll pre).handle r).handleAll post := by
    simp [handleAll]
  have hpc₁ : ((m.handleAll pre).handle r).pc = .recv := handle_pc (handleAll_pc hpc pre) r
  have hinfo : ((m.handleAll pre).handle r).info
      = setProductInfo total qualifiedAmount year mon r.after := by
    rw [info_handle_of_ne (handleAll_pc hpc pre) (by simp [hr]), hr]
    rfl
  generalize (m.handleAll pre).handle r = m₁ at *
  obtain ⟨htotal, hqualified⟩ := totals_handleAll hpc₁
    fun d hd => (hpost d hd).imp_right fun h => ⟨D, h⟩
  obtain ⟨hyes, hno⟩ := dateOf_handleAll hpc₁ hpost
  rw [hall]
  have ht : (m₁.handleAll post).info.total
        = total + UInt32.ofNat (m.weighings pre ++ m₁.weighings post).length ↔
      UInt32.ofNat (m.weighings pre).length = 0 := by
    rw [htotal, hinfo, List.length_append, UInt32.ofNat_add]
    exact add_eq_add_add_iff _ _ _
  have hq : (m₁.handleAll post).info.qualifiedAmount
        = qualifiedAmount + UInt32.ofNat ((m.weighings pre ++ m₁.weighings post).count 1) ↔
      UInt32.ofNat ((m.weighings pre).count 1) = 0 := by
    rw [hqualified, hinfo, List.count_append, UInt32.ofNat_add]
    exact add_eq_add_add_iff _ _ _
  have hd : dateOf (m₁.handleAll post).info = networkDate D ↔
      (∃ d ∈ post, d.msg = .date D) ∨ (year, mon, r.after) = networkDate D := by
    by_cases hex : ∃ d ∈ post, d.msg = .date D
    · simp only [hyes hex, hex, true_or]
    · rw [hno hex, hinfo]
      simp only [hex, false_or]
      rfl
  rw [← ht, ← hq, ← hd]
  exact ⟨fun h => ⟨h.total, h.qualifiedAmount, h.date⟩, fun h => ⟨h.1, h.2.1, h.2.2⟩⟩

/-- The characters of the date 2022.07.20. -/
def july20 : Vector UInt8 8 := #v[50, 48, 50, 50, 48, 55, 50, 48]

/-- The log first, then the date, then two weighings: nothing is lost. -/
theorem startup_in_order :
    Restored ((start 0).handleAll (τ := Unit) [⟨.restore 120 117 2022 7, 13, none⟩,
      ⟨.date july20, 0, none⟩, ⟨.grabbed, 0, some 3000⟩, ⟨.weigh, 0, some 2500⟩,
      ⟨.weigh, 0, some 2400⟩]).info 120 117 july20 [1, 0] :=
  (startup_info_iff (r := (⟨.restore 120 117 2022 7, 13, none⟩ : Delivery Unit)) 0 [] _ rfl
    (by simp [isWeighing])).mpr ⟨rfl, rfl, .inl ⟨_, List.mem_cons_self .., rfl⟩⟩

/-- One item is weighed before the log is reported: the same messages in another order, and the item
is gone. -/
theorem startup_item_lost :
    ((start 0).weighings (τ := Unit) [⟨.grabbed, 0, some 3000⟩, ⟨.weigh, 0, some 2500⟩]) = [1] ∧
    ((start 0).handleAll (τ := Unit) [⟨.restore 120 117 2022 7, 13, none⟩, ⟨.date july20, 0, none⟩,
      ⟨.grabbed, 0, some 3000⟩, ⟨.weigh, 0, some 2500⟩]).info.total = 121 ∧
    ((start 0).handleAll (τ := Unit) [⟨.grabbed, 0, some 3000⟩, ⟨.weigh, 0, some 2500⟩,
      ⟨.restore 120 117 2022 7, 13, none⟩, ⟨.date july20, 0, none⟩]).info.total = 120 ∧
    ¬ Restored ((start 0).handleAll (τ := Unit) [⟨.grabbed, 0, some 3000⟩, ⟨.weigh, 0, some 2500⟩,
      ⟨.restore 120 117 2022 7, 13, none⟩, ⟨.date july20, 0, none⟩]).info 120 117 july20 [1] := by
  refine ⟨by decide, by decide, by decide, fun h => ?_⟩
  exact absurd h.total (by decide)

end Startup

end Main

/-! ### Iterations in a run -/

namespace Sys

variable {s s' : Sys} {a : Label} {tempAdc : UInt16} {disk : Disk} {tr : List (Sys × Label)}

/-- The message that `main` takes in a step. -/
def mainTakes (x : Sys × Label) : List (MainMsg (NbRecord × Nat)) :=
  match x.2 with
  | .mainRecv _ => x.1.mainMq.items.take 1
  | _ => []

/-- Where `main` stands after it took the messages `msgs`. -/
inductive Iterating (tempAdc : UInt16) (msgs : List (MainMsg (NbRecord × Nat))) (m : Main) : Prop
  /-- It is through with all of them, but for the masks. -/
  | done (ds : List (Delivery (NbRecord × Nat))) : ds.map Delivery.msg = msgs →
      (m.pc = .recv ∨ m.pc = .enable2Load ∨ m.pc = .enableLoad ∨ (∃ r, m.pc = .enable2Store r) ∨
        ∃ r, m.pc = .enableStore r) →
      { m with pc := .recv } = (Main.start tempAdc).handleAll ds → Iterating tempAdc msgs m
  /-- It took the last one and reads the ADC. -/
  | reading (ds : List (Delivery (NbRecord × Nat))) (msg : MainMsg (NbRecord × Nat))
      (after : UInt32) : ds.map Delivery.msg ++ [msg] = msgs →
      (m.pc = .readWeigh ∨ m.pc = .readGrab) →
      m = (((Main.start tempAdc).handleAll ds).recv msg after).1 → Iterating tempAdc msgs m
  /-- It has weighed the item of the last one, and waits. -/
  | waiting (ds : List (Delivery (NbRecord × Nat))) (msg : MainMsg (NbRecord × Nat))
      (after : UInt32) (adc : Option UInt16) : ds.map Delivery.msg ++ [msg] = msgs →
      (((Main.start tempAdc).handleAll ds).recv msg after).1.pc = .readWeigh →
      m = ((((Main.start tempAdc).handleAll ds).recv msg after).1.readWeigh adc).1 →
      Iterating tempAdc msgs m

/-- One more message handled. -/
theorem Iterating.done_concat {msgs : List (MainMsg (NbRecord × Nat))} {m : Main}
    {ds : List (Delivery (NbRecord × Nat))} (d : Delivery (NbRecord × Nat))
    (hds : ds.map Delivery.msg ++ [d.msg] = msgs)
    (hpc : m.pc = .recv ∨ m.pc = .enable2Load ∨ m.pc = .enableLoad)
    (hm : { m with pc := .recv } = ((Main.start tempAdc).handleAll ds).handle d) :
    Iterating tempAdc msgs m := by
  refine .done (ds ++ [d]) (by simpa using hds) (by tauto) ?_
  rw [hm, Main.handleAll_concat]

/-- Unmasking the pins handles no message. -/
theorem Iterating.goto {msgs : List (MainMsg (NbRecord × Nat))} {m : Main} {pc : MainPc}
    (hI : Iterating tempAdc msgs m) (h₁ : m.pc ≠ .readWeigh ∧ m.pc ≠ .readGrab ∧ m.pc ≠ .delay)
    (h₂ : pc = .recv ∨ pc = .enable2Load ∨ pc = .enableLoad ∨ (∃ r, pc = .enable2Store r) ∨
      ∃ r, pc = .enableStore r) : Iterating tempAdc msgs { m with pc } := by
  cases hI with
  | done ds hds _ hm => exact .done ds hds h₂ hm
  | reading _ _ _ _ h => exact absurd h (by tauto)
  | waiting _ _ _ _ _ _ h => exact absurd (by rw [h]; rfl) h₁.2.2

theorem wake_pc (m : Main) : m.wake.1.pc = .enable2Load ∨ m.wake.1.pc = .enableLoad := by
  unfold Main.wake
  split_ifs <;> simp

/-- `main` takes a message. -/
theorem Iterating.recv {msgs : List (MainMsg (NbRecord × Nat))} {m : Main}
    (hI : Iterating tempAdc msgs m) (hpc : m.pc = .recv) (msg : MainMsg (NbRecord × Nat))
    (after : UInt32) : Iterating tempAdc (msgs ++ [msg]) (m.recv msg after).1 := by
  cases hI with
  | reading _ _ _ _ h => rcases h with h | h <;> simp [h] at hpc
  | waiting _ _ _ _ _ _ h => rw [h] at hpc; cases hpc
  | done ds hds _ hm =>
    have hm' : m = (Main.start tempAdc).handleAll ds := by rw [← hm, ← hpc]
    rcases m.recv_pc msg after with ⟨-, -, h⟩ | ⟨-, -, h⟩ | ⟨-, -, h⟩
    · exact .reading ds msg after (by rw [hds]) (.inl h) (by rw [← hm'])
    · exact .reading ds msg after (by rw [hds]) (.inr h) (by rw [← hm'])
    · rw [hpc] at h
      refine .done_concat ⟨msg, after, none⟩ (by rw [hds]) (.inl h) ?_
      rw [← hm', Main.handle]
      simp only [h]
      rw [← h]

theorem step_iterating {msgs : List (MainMsg (NbRecord × Nat))}
    (hI : Iterating tempAdc msgs s.main) (h : s.step a = some s') :
    Iterating tempAdc (msgs ++ mainTakes (s, a)) s'.main := by
  by_cases ha : mover a = .main
  swap
  · have ht : mainTakes (s, a) = [] := by cases a <;> first | rfl | exact absurd rfl ha
    rw [(step_frame h).main ha, ht, List.append_nil]
    exact hI
  replace h := step_spec h
  cases a with
  | mainRecv after =>
    obtain ⟨m, q, hpc, hq, rfl⟩ := h
    have ht : mainTakes (s, .mainRecv after) = [m] := by simp [mainTakes, hq]
    rw [ht, commit_main]
    exact hI.recv hpc m after
  | mainRead adc =>
    rw [show mainTakes (s, .mainRead adc) = [] from rfl, List.append_nil]
    rcases h with ⟨hpc, rfl⟩ | ⟨hpc, rfl⟩ <;> rw [commit_main]
    · cases hI with
      | done _ _ h => simp [hpc] at h
      | waiting _ _ _ _ _ _ h => rw [h] at hpc; cases hpc
      | reading ds msg after hds _ hm =>
        exact .waiting ds msg after adc hds (by rw [← hm, hpc]) (by rw [← hm])
    · cases hI with
      | done _ _ h => simp [hpc] at h
      | waiting _ _ _ _ _ _ h => rw [h] at hpc; cases hpc
      | reading ds msg after hds _ hm =>
        refine .done_concat ⟨msg, after, adc⟩ hds (.inl rfl) ?_
        rw [Main.handle]
        simp only [← hm, hpc]
        rfl
  | mainWake =>
    rw [show mainTakes (s, .mainWake) = [] from rfl, List.append_nil]
    obtain ⟨hpc, rfl⟩ := h
    rw [commit_main]
    cases hI with
    | done _ _ h => simp [hpc] at h
    | reading _ _ _ _ h => simp [hpc] at h
    | waiting ds msg after adc hds hpc' hm =>
      refine .done_concat ⟨msg, after, adc⟩ hds (.inr (wake_pc _)) ?_
      rw [Main.handle]
      simp only [hpc', ← hm]
  | mainLoad =>
    rw [show mainTakes (s, .mainLoad) = [] from rfl, List.append_nil]
    rcases h with ⟨hpc, rfl⟩ | ⟨hpc, rfl⟩ <;> exact hI.goto (by simp [hpc]) (by simp)
  | mainStore =>
    rw [show mainTakes (s, .mainStore) = [] from rfl, List.append_nil]
    rcases h with ⟨_, hpc, rfl⟩ | ⟨_, hpc, rfl⟩ <;> exact hI.goto (by simp [hpc]) (by simp)
  | _ => cases ha

theorem iterating_of_reaches (h : Reaches tempAdc disk tr s) :
    Iterating tempAdc (tr.flatMap mainTakes) s.main := by
  induction h with
  | start => exact .done [] rfl (.inl rfl) rfl
  | next hr ha ih =>
    rw [List.flatMap_append, List.flatMap_singleton]
    exact step_iterating ih ha

/-- **A run handles one message after the other**: whenever `main` waits in `rt_mq_recv`, its state
is that of whole iterations for the messages it took, in order. -/
theorem main_eq_handleAll (h : Reaches tempAdc disk tr s) (hpc : s.main.pc = .recv) :
    ∃ ds : List (Delivery (NbRecord × Nat)), ds.map Delivery.msg = tr.flatMap mainTakes ∧
      s.main = (Main.start tempAdc).handleAll ds := by
  cases iterating_of_reaches h with
  | done ds hds _ hm => exact ⟨ds, hds, by rw [← hm, ← hpc]⟩
  | reading _ _ _ _ h => rcases h with h | h <;> simp [h] at hpc
  | waiting _ _ _ _ _ _ h => rw [h] at hpc; cases hpc

end Sys

end SortingLine
