import SortingLine.Controller.Equiv.Batch

/-!
# The interrupt masks

Each input pin is masked by its own interrupt handler and unmasked by `main` in `case 1`.  A mask
therefore stands for a message on its way: `MaskInv s n₁ n₂` says that the mask of `INPUT_SIGNAL`
is set exactly once for a "weigh" message in `main_mq` or under way in `case 1`, and that of
`INPUT_SIGNAL2` exactly once for a "grabbed" message in `main_mq` or a batch under way, up to the
numbers `n₁` and `n₂` of masks whose message is gone without `main` ever unmasking the pin.

Every step keeps this (`step_maskInv`), with two provisos.

* `Lost`: a mask loses its message when the handler's send finds `main_mq` full, and when `main`
  takes a "weigh" message outside a batch, where `case 1` does nothing and so unmasks nothing.
  Nothing brings such a pin back.
* `Torn`: `ls1x_enable_gpio_interrupt` loads the enable register, sets its bit and stores it.  If
  the register changed in between, the store undoes that change.
-/

namespace SortingLine.Sys

variable {s s' : Sys} {a : Label} {tempAdc : UInt16} {disk : Disk} {tr : List (Sys × Label)}
  {n₁ n₂ : Nat}

/-- `main_mq` is empty and `main` waits in `rt_mq_recv`. -/
def Quiescent (s : Sys) : Prop := s.mainMq.items = [] ∧ s.main.pc = .recv

/-- The next pulse that the line can give will be received: `INPUT_SIGNAL` is not masked, and
`INPUT_SIGNAL2` is not masked exactly outside a batch. -/
def Receivable (s : Sys) : Prop :=
  s.ien.signal = true ∧ (s.ien.signal2 = true ↔ s.main.ctrlFlow = 0)

instance : DecidablePred Quiescent := fun _ => inferInstanceAs (Decidable (_ ∧ _))

instance : DecidablePred Receivable := fun _ => inferInstanceAs (Decidable (_ ∧ _))

/-- The step loses the message of a mask: an interrupt that finds `main_mq` full, or a "weigh"
message taken with `ctrl_flow = 0`. -/
def Lost (x : Sys × Label) : Prop :=
  match x.2 with
  | .edge _ => x.1.mainMq.Full
  | .mainRecv _ => x.1.mainMq.items.head? = some .weigh ∧ x.1.main.ctrlFlow = 0
  | _ => False

/-- The step stores the enable register although it is no longer as it was loaded. -/
def Torn (x : Sys × Label) : Prop :=
  (x.2 = .touchStore ∧ x.1.touch ≠ some x.1.ien) ∨
  (x.2 = .mainStore ∧ x.1.main.pc ≠ .enable2Store x.1.ien ∧ x.1.main.pc ≠ .enableStore x.1.ien)

instance : DecidablePred Torn := fun _ => inferInstanceAs (Decidable (_ ∨ _))

/-! ### The invariant -/

/-- A "weigh" message is under way in `case 1`. -/
def weighing : MainPc → Bool
  | .recv => false
  | .readGrab => false
  | _ => true

/-- A batch is under way, from `case 9` until `INPUT_SIGNAL2` is unmasked again. -/
def inBatch (m : Main) : Bool :=
  m.ctrlFlow != 0 ||
    match m.pc with
    | .readGrab => true
    | .enable2Load => true
    | .enable2Store _ => true
    | _ => false

/-- What each mask stands for. -/
structure MaskInv (s : Sys) (n₁ n₂ : Nat) : Prop where
  signal : (!s.ien.signal).toNat
    = s.mainMq.items.count .weigh + (weighing s.main.pc).toNat + n₁
  signal2 : (!s.ien.signal2).toNat
    = s.mainMq.items.count .grabbed + (inBatch s.main).toNat + n₂

theorem maskInv_start : MaskInv (start tempAdc disk) 0 0 := ⟨rfl, rfl⟩

theorem eq_true_iff_of_toNat_not {b : Bool} {n : Nat} (h : (!b).toNat = n) : b = true ↔ n = 0 := by
  subst h
  cases b <;> simp

/-- In a quiescent state the pins are as they should be exactly when no mask has lost its
message. -/
theorem MaskInv.receivable_iff (hI : MaskInv s n₁ n₂) (hq : Quiescent s) :
    Receivable s ↔ n₁ + n₂ = 0 := by
  obtain ⟨h₁, h₂⟩ := hI
  obtain ⟨hitems, hpc⟩ := hq
  have hb : inBatch s.main = (s.main.ctrlFlow != 0) := by simp [inBatch, hpc]
  have hle := Bool.toNat_le (!s.ien.signal2)
  rw [hitems, hpc, List.count_nil, weighing, Bool.toNat_false] at h₁
  rw [hitems, hb, List.count_nil] at h₂
  rw [Receivable, eq_true_iff_of_toNat_not h₁, eq_true_iff_of_toNat_not h₂]
  by_cases hc : s.main.ctrlFlow = 0
  · simp [hc]
  · -- in a batch the mask of `INPUT_SIGNAL2` stands for the batch and for nothing else
    have hc' : (s.main.ctrlFlow != 0).toNat = 1 := by simpa using hc
    simp only [hc, iff_false]
    omega

/-! ### One step -/

/-- A step that changes no mask and no message the masks stand for. -/
theorem MaskInv.of_eq (hI : MaskInv s n₁ n₂) (hien : s'.ien = s.ien)
    (hq : ∀ m : MainMsg (NbRecord × Nat), m = .weigh ∨ m = .grabbed →
      s'.mainMq.items.count m = s.mainMq.items.count m)
    (hw : weighing s'.main.pc = weighing s.main.pc) (hb : inBatch s'.main = inBatch s.main) :
    MaskInv s' n₁ n₂ := by
  constructor
  · rw [hien, hw, hq _ (.inl rfl)]; exact hI.signal
  · rw [hien, hb, hq _ (.inr rfl)]; exact hI.signal2

/-- Only the interrupt handlers send "weigh" and "grabbed". -/
theorem count_posted (hs : s.step a = some s') (hm : mover a ≠ .main) (hi : mover a ≠ .isr)
    {m : MainMsg (NbRecord × Nat)} (h : m = .weigh ∨ m = .grabbed) :
    s'.mainMq.items.count m = s.mainMq.items.count m := by
  rw [step_mainMq hs hm]
  cases hp : posted s a with
  | none => rfl
  | some m' =>
    refine BQueue.count_send_of_ne _ ?_
    rintro rfl
    rcases posted_cases hp with ⟨rfl, -⟩ | ⟨rfl, -⟩ | ⟨up, -, rfl⟩ | ⟨rbuf, -, -, hf⟩ |
      ⟨_, -, rfl⟩ | ⟨_, -, rfl⟩ | ⟨_, -, -, rfl⟩
    · exact hi rfl
    · exact hi rfl
    · cases up <;> simp at h
    · rcases sendFileMsg_cases (τ := NbRecord × Nat) rbuf with hr | ⟨_, _, _, _, hr⟩ <;>
        simp [hf, hr] at h
    · simp at h
    · simp at h
    · simp at h

/-- A pin that was not masked stood for nothing.  After its handler has run, the mask stands for the
message just sent, or for a lost one if `main_mq` is full. -/
theorem exists_mask_send {bit : Bool} {m : MainMsg (NbRecord × Nat)}
    {q : BQueue (MainMsg (NbRecord × Nat)) 6} {w n : Nat} (hbit : bit = true)
    (h : (!bit).toNat = q.items.count m + w + n) :
    ∃ n', (!false).toNat = (q.send m).items.count m + w + n' ∧ n = 0 ∧ (n' = 0 ↔ ¬ q.Full) := by
  rw [hbit, Bool.not_true, Bool.toNat_false] at h
  rw [Bool.not_false, Bool.toNat_true]
  by_cases hf : q.Full
  · refine ⟨1, ?_, by omega, by simp [hf]⟩
    rw [BQueue.send_of_full hf]
    omega
  · refine ⟨0, ?_, by omega, by simp [hf]⟩
    rw [BQueue.items_send_of_not_full hf, List.count_append, List.count_singleton_self]
    omega

/-- An interrupt handler masks its pin, and loses the message if `main_mq` is full. -/
theorem MaskInv.edge {p : Pin} (hI : MaskInv s n₁ n₂) (h : s.step (.edge p) = some s') :
    ∃ n₁' n₂', MaskInv s' n₁' n₂' ∧ (n₁' + n₂' = 0 ↔ n₁ + n₂ = 0 ∧ ¬ s.mainMq.Full) := by
  obtain ⟨h₁, h₂⟩ := hI
  cases p with
  | inputSignal =>
    obtain ⟨hbit, rfl⟩ := step_spec h
    obtain ⟨n₁', h₁', hzero, hiff⟩ := exists_mask_send hbit h₁
    refine ⟨n₁', n₂, ⟨h₁', ?_⟩, by rw [← hiff]; omega⟩
    -- the other mask and its messages are as they were
    show _ = (s.mainMq.send .weigh).items.count .grabbed + _ + _
    rw [BQueue.count_send_of_ne _ (by simp)]
    exact h₂
  | inputSignal2 =>
    obtain ⟨hbit, rfl⟩ := step_spec h
    obtain ⟨n₂', h₂', hzero, hiff⟩ := exists_mask_send hbit h₂
    refine ⟨n₁, n₂', ⟨?_, h₂'⟩, by rw [← hiff]; omega⟩
    show _ = (s.mainMq.send .grabbed).items.count .weigh + _ + _
    rw [BQueue.count_send_of_ne _ (by simp)]
    exact h₁

section Recv

variable {q : BQueue (MainMsg (NbRecord × Nat)) 6} {m : MainMsg (NbRecord × Nat)} {after : UInt32}

/-- `main` takes a "weigh" message: in a batch it goes on to unmask the pin, outside the mask is
lost. -/
theorem MaskInv.recvWeigh (hI : MaskInv s n₁ n₂) (hpc : s.main.pc = .recv)
    (hq : s.mainMq.items = m :: q.items) (hm : m = .weigh) :
    MaskInv ({ s with mainMq := q }.commit (s.main.recv m after))
      (if s.main.ctrlFlow = 0 then n₁ + 1 else n₁) n₂ := by
  subst hm
  obtain ⟨h₁, h₂⟩ := hI
  have hb : inBatch s.main = (s.main.ctrlFlow != 0) := by simp [inBatch, hpc]
  rw [hq, hpc, List.count_cons_self, weighing, Bool.toNat_false] at h₁
  rw [hq, hb, List.count_cons_of_ne (by simp)] at h₂
  by_cases hc : s.main.ctrlFlow = 0
  · rw [if_pos hc]
    constructor
    · simp only [commit_ien, commit_mainMq, commit_main, Main.recv, hc, hpc, weighing, ne_eq,
        not_true_eq_false, if_false, Bool.toNat_false]
      omega
    · simpa [Main.recv, hc, hb] using h₂
  · rw [if_neg hc]
    constructor
    · simp only [commit_ien, commit_mainMq, commit_main, Main.recv, ne_eq, hc, not_false_eq_true,
        if_true, weighing, Bool.toNat_true]
      omega
    · simpa [Main.recv, hc, inBatch] using h₂

/-- `main` takes a "grabbed" message: the batch it begins takes the place of the message. -/
theorem MaskInv.recvGrabbed (hI : MaskInv s n₁ n₂) (hpc : s.main.pc = .recv)
    (hq : s.mainMq.items = m :: q.items) (hm : m = .grabbed) :
    MaskInv ({ s with mainMq := q }.commit (s.main.recv m after)) n₁ n₂ := by
  subst hm
  obtain ⟨h₁, h₂⟩ := hI
  have hb : inBatch s.main = (s.main.ctrlFlow != 0) := by simp [inBatch, hpc]
  rw [hq, hpc, List.count_cons_of_ne (by simp)] at h₁
  rw [hq, hb, List.count_cons_self] at h₂
  by_cases hc : s.main.ctrlFlow = 0
  · constructor
    · simpa [Main.recv, hc, weighing] using h₁
    · simp only [commit_ien, commit_mainMq, commit_main, Main.recv, hc, if_true, inBatch,
        Bool.or_true, Bool.toNat_true]
      simp only [hc, bne_self_eq_false, Bool.toNat_false] at h₂
      omega
  · -- in a batch the mask stands for the batch, not for a message
    have hc' : (s.main.ctrlFlow != 0).toNat = 1 := by simpa using hc
    have := Bool.toNat_le (!s.ien.signal2)
    omega

/-- No mask stands for any other message. -/
theorem MaskInv.recvOther (hI : MaskInv s n₁ n₂) (hpc : s.main.pc = .recv)
    (hq : s.mainMq.items = m :: q.items) (hw : m ≠ .weigh) (hg : m ≠ .grabbed) :
    MaskInv ({ s with mainMq := q }.commit (s.main.recv m after)) n₁ n₂ := by
  have hrec : (s.main.recv m after).1.pc = .recv := by
    rcases s.main.recv_pc m after with ⟨h, -⟩ | ⟨h, -⟩ | ⟨-, -, h⟩
    · exact absurd h hw
    · exact absurd h hg
    · rw [h, hpc]
  refine hI.of_eq (by simp) ?_ (by simp [hrec, hpc]) (by simp [hrec, hpc, inBatch])
  rintro m' (rfl | rfl)
  · rw [commit_mainMq, hq, List.count_cons_of_ne hw]
  · rw [commit_mainMq, hq, List.count_cons_of_ne hg]

end Recv

/-- `main` takes a message: the mask of a "weigh" message outside a batch is lost. -/
theorem MaskInv.mainRecv {after : UInt32} (hI : MaskInv s n₁ n₂)
    (h : s.step (.mainRecv after) = some s') :
    ∃ n₁' n₂', MaskInv s' n₁' n₂' ∧
      (n₁' + n₂' = 0 ↔ n₁ + n₂ = 0 ∧ ¬ Lost (s, .mainRecv after)) := by
  obtain ⟨m, q, hpc, hq, rfl⟩ := step_spec h
  have hL : Lost (s, .mainRecv after) ↔ m = .weigh ∧ s.main.ctrlFlow = 0 := by simp [Lost, hq]
  rw [hL]
  by_cases hw : m = .weigh
  · refine ⟨_, _, hI.recvWeigh hpc hq hw, ?_⟩
    by_cases hc : s.main.ctrlFlow = 0 <;> simp [hw, hc]
  by_cases hg : m = .grabbed
  · exact ⟨_, _, hI.recvGrabbed hpc hq hg, by simp [hg]⟩
  · exact ⟨_, _, hI.recvOther hpc hq hw hg, by simp [hw]⟩

/-- Reading the ADC, the delay and loading the enable register change no mask. -/
theorem MaskInv.mainInner (hI : MaskInv s n₁ n₂) (hm : s.main.Batch) (h : s.step a = some s')
    (ha : (∃ adc, a = .mainRead adc) ∨ a = .mainWake ∨ a = .mainLoad) : MaskInv s' n₁ n₂ := by
  rcases ha with ⟨adc, rfl⟩ | rfl | rfl
  · rcases step_spec h with ⟨hpc, rfl⟩ | ⟨hpc, rfl⟩
    · exact hI.of_eq (by simp) (by simp) (by simp [Main.readWeigh, hpc, weighing])
        (by simp [Main.readWeigh, hpc, inBatch])
    · exact hI.of_eq (by simp) (by simp) (by simp [Main.readGrab, hpc, weighing])
        (by simp [Main.readGrab, hpc, inBatch])
  · obtain ⟨hpc, rfl⟩ := step_spec h
    have hc := hm.weigh (.inr hpc)
    refine hI.of_eq (by simp) (by simp) ?_ ?_ <;> rw [commit_main, Main.wake]
    · split_ifs <;> simp [hpc, weighing]
    · split_ifs <;> simp [hpc, hc, inBatch]
  · rcases step_spec h with ⟨hpc, rfl⟩ | ⟨hpc, rfl⟩
    · exact hI.of_eq rfl (by simp [goto]) (by simp [goto, hpc, weighing])
        (by simp [goto, hpc, inBatch])
    · exact hI.of_eq rfl (by simp [goto]) (by simp [goto, hpc, weighing])
        (by simp [goto, hpc, inBatch])

/-- `main` unmasks a pin whose message it is done with. -/
theorem MaskInv.mainStore (hI : MaskInv s n₁ n₂) (hm : s.main.Batch)
    (h : s.step .mainStore = some s') (ht : ¬ Torn (s, .mainStore)) : MaskInv s' n₁ n₂ := by
  obtain ⟨h₁, h₂⟩ := hI
  rcases step_spec h with ⟨r, hpc, rfl⟩ | ⟨r, hpc, rfl⟩
  · -- not torn: only the bit of `INPUT_SIGNAL2` changes
    obtain rfl : r = s.ien := by simpa [Torn, hpc] using ht
    have hc := hm.grab (.inr (.inr ⟨_, hpc⟩))
    have hle := Bool.toNat_le (!s.ien.signal2)
    constructor
    · simpa [goto, Ien.set, hpc, weighing] using h₁
    · simp only [hpc, inBatch, Bool.or_true, Bool.toNat_true] at h₂
      simp only [goto, Ien.set, hc, inBatch, bne_self_eq_false, Bool.or_false, Bool.not_true,
        Bool.toNat_false]
      omega
  · obtain rfl : r = s.ien := by simpa [Torn, hpc] using ht
    have hle := Bool.toNat_le (!s.ien.signal)
    constructor
    · simp only [hpc, weighing, Bool.toNat_true] at h₁
      simp only [goto, Ien.set, weighing, Bool.not_true, Bool.toNat_false]
      omega
    · simpa [goto, Ien.set, hpc, inBatch] using h₂

/-- **What a step does to the masks**: unless it tears the enable register it keeps their meaning,
and loses no message but in the two `Lost` cases. -/
theorem step_maskInv (hI : MaskInv s n₁ n₂) (hm : s.main.Batch) (h : s.step a = some s')
    (ht : ¬ Torn (s, a)) :
    ∃ n₁' n₂', MaskInv s' n₁' n₂' ∧ (n₁' + n₂' = 0 ↔ n₁ + n₂ = 0 ∧ ¬ Lost (s, a)) := by
  have keep (hI' : MaskInv s' n₁ n₂) (hl : ¬ Lost (s, a)) :
      ∃ n₁' n₂', MaskInv s' n₁' n₂' ∧ (n₁' + n₂' = 0 ↔ n₁ + n₂ = 0 ∧ ¬ Lost (s, a)) :=
    ⟨n₁, n₂, hI', by simp [hl]⟩
  have frame (h₁ : mover a ≠ .main) (h₂ : mover a ≠ .isr) (hien : s'.ien = s.ien) :
      MaskInv s' n₁ n₂ := by
    have hmain := (step_frame h).main h₁
    exact hI.of_eq hien (fun m => count_posted h h₁ h₂) (by rw [hmain]) (by rw [hmain])
  cases a with
  -- the two steps that can lose a message
  | edge p => exact hI.edge h
  | mainRecv after => exact hI.mainRecv h
  | mainRead adc => exact keep (hI.mainInner hm h (.inl ⟨adc, rfl⟩)) (by simp [Lost])
  | mainWake => exact keep (hI.mainInner hm h (.inr (.inl rfl))) (by simp [Lost])
  | mainLoad => exact keep (hI.mainInner hm h (.inr (.inr rfl))) (by simp [Lost])
  | mainStore => exact keep (hI.mainStore hm h ht) (by simp [Lost])
  | touchStore =>
    obtain ⟨r, hr, rfl⟩ := step_spec h
    obtain rfl : r = s.ien := by simpa [Torn, hr] using ht
    exact keep (frame (by simp [mover]) (by simp [mover]) rfl) (by simp [Lost])
  | touchLoad =>
    obtain rfl := step_spec h
    exact keep (frame (by simp [mover]) (by simp [mover]) rfl) (by simp [Lost])
  | _ =>
    exact keep (frame (by simp [mover]) (by simp [mover])
      ((step_frame h).ien (by simp [mover]) (by simp [mover]) (by simp [mover]))) (by simp [Lost])

/-- What the masks stand for in every state of a run without a torn store. -/
theorem maskInv_of_reaches (h : Reaches tempAdc disk tr s) (ht : ∀ x ∈ tr, ¬ Torn x) :
    ∃ n₁ n₂, MaskInv s n₁ n₂ ∧ (n₁ + n₂ = 0 ↔ ∀ x ∈ tr, ¬ Lost x) := by
  -- the lost masks are counted along the run: none so far, exactly if no step lost one
  induction h with
  | start => exact ⟨0, 0, maskInv_start, by simp⟩
  | @next tr s s' a hr ha ih =>
    obtain ⟨n₁, n₂, hI, hn⟩ := ih fun x hx => ht x (by simp [hx])
    obtain ⟨n₁', n₂', hI', hn'⟩ := step_maskInv hI (batch_of_reaches hr) ha (ht _ (by simp))
    refine ⟨n₁', n₂', hI', ?_⟩
    rw [hn', hn]
    simp [or_imp, forall_and]

/-- A mask stands for one thing at most: one message of each kind in `main_mq`, and no "grabbed"
message there during a batch. -/
theorem MaskInv.count_le (hI : MaskInv s n₁ n₂) :
    s.mainMq.items.count .weigh ≤ 1 ∧ s.mainMq.items.count .grabbed ≤ 1 ∧
      (.grabbed ∈ s.mainMq.items → s.main.ctrlFlow = 0) := by
  have h₁ := Bool.toNat_le (!s.ien.signal)
  have h₂ := Bool.toNat_le (!s.ien.signal2)
  rw [hI.signal] at h₁
  rw [hI.signal2] at h₂
  refine ⟨by omega, by omega, fun hg => ?_⟩
  by_contra hc
  have hb : inBatch s.main = true := by simp [inBatch, hc]
  have hpos := List.count_pos_iff.mpr hg
  rw [hb, Bool.toNat_true] at h₂
  omega

/-! ### Quiescent states -/

/-- **When the line stays receptive.**  In a run without a torn store, the pins of a quiescent
state are as they should be exactly when no mask has lost its message on the way. -/
theorem quiescent_receivable_iff (h : Reaches tempAdc disk tr s) (ht : ∀ x ∈ tr, ¬ Torn x)
    (hq : Quiescent s) : Receivable s ↔ ∀ x ∈ tr, ¬ Lost x := by
  obtain ⟨n₁, n₂, hI, hn⟩ := maskInv_of_reaches h ht
  rw [hI.receivable_iff hq, hn]

/-- A batch is announced and its first resistor weighed; both pins are as they should be. -/
theorem quiescent_receivable_first_weighing : ∃ tr s, Reaches 0 ⟨false, none⟩ tr s ∧
    tr.map Prod.snd = grabLabels 3000 ++ weighLabels 2500 ++ resumeLabels ∧
    Quiescent s ∧ s.main.ctrlFlow = 1 ∧ Receivable s ∧ ∀ x ∈ tr, ¬ Lost x := by
  obtain ⟨tr, s, h, hl, ht, hq, hc, hr⟩ := exists_reaches
    (grabLabels 3000 ++ weighLabels 2500 ++ resumeLabels)
    (fun r => (∀ x ∈ r.1, ¬ Torn x) ∧ Quiescent r.2 ∧ r.2.main.ctrlFlow = 1 ∧ Receivable r.2)
    (by decide +kernel)
  exact ⟨tr, s, h, hl, hq, hc, hr, (quiescent_receivable_iff h ht hq).mp hr⟩

/-- One pulse on `INPUT_SIGNAL` outside a batch: the pin is masked, `case 1` does nothing, and the
line is at rest with the pin masked. -/
theorem quiescent_not_receivable : ∃ tr s, Reaches 0 ⟨false, none⟩ tr s ∧
    tr.map Prod.snd = [.edge .inputSignal, .mainRecv 0] ∧ Quiescent s ∧ ¬ Receivable s := by
  obtain ⟨tr, s, h, hl, hq, hr⟩ := exists_reaches
    ([.edge .inputSignal, .mainRecv 0])
    (fun r => Quiescent r.2 ∧ ¬ Receivable r.2)
    (by decide +kernel)
  exact ⟨tr, s, h, hl, hq, hr⟩

/-! ### The weighing state machine -/

/-- What the masks promise of `main_mq`: at most one "weigh" and one "grabbed" message, and no
"grabbed" message while a batch is under way, so that `case 9` never discards one. -/
structure PulsesKept (s : Sys) : Prop where
  weigh : s.mainMq.items.count .weigh ≤ 1
  grabbed : s.mainMq.items.count .grabbed ≤ 1
  accepted : .grabbed ∈ s.mainMq.items → s.main.ctrlFlow = 0

/-- **The batches of every run**, and what the masks promise as long as no store of the enable
register is torn. -/
theorem weighing_batches (h : Reaches tempAdc disk tr s) :
    (s.main.ctrlFlow = 0 ∨ s.main.ctrlFlow = 1) ∧
    (s.main.ctrlFlow = 1 ↔ 1 ≤ s.main.adcMeasureCount ∧ s.main.adcMeasureCount ≤ 6) ∧
    (s.main.ctrlFlow = 0 ↔ s.main.adcMeasureCount = 0) ∧
    (s.main.pc = .delay → s.main.adcMeasureCount ≠ 0) ∧
    (∀ es₁ mid es₂, batchEvents tr = es₁ ++ .accepted :: (mid ++ .accepted :: es₂) →
      .accepted ∉ mid → mid = List.replicate 6 .counted) ∧
    ((∀ x ∈ tr, ¬ Torn x) → PulsesKept s) := by
  have hm := batch_of_reaches h
  refine ⟨?_, ?_, ?_, ?_, ?_, ?_⟩
  · rcases hm.flow with ⟨h0, -⟩ | ⟨h1, -⟩
    · exact .inl h0
    · exact .inr h1
  · rcases hm.flow with ⟨h0, hc⟩ | ⟨h1, hc⟩
    · simp [h0, hc]
    · simp [h1, hc]
  · rcases hm.flow with ⟨h0, hc⟩ | ⟨h1, hc, -⟩
    · simp [h0, hc]
    · have : s.main.adcMeasureCount ≠ 0 := by rintro h0; simp [h0] at hc
      simp [h1, this]
  · rintro hpc h0
    have := (hm.toNat_adcMeasureCount_sub_one hpc).2.1
    simp [h0] at this
  · intro es₁ mid es₂ he hmid
    obtain ⟨k, rfl⟩ : ∃ k, mid = List.replicate k .counted := by
      refine ⟨mid.length, List.eq_replicate_iff.mpr ⟨rfl, fun e he => ?_⟩⟩
      cases e with
      | accepted => exact absurd he hmid
      | counted => rfl
    rw [six_counted_between_accepted h he]
  · intro ht
    obtain ⟨n₁, n₂, hI, -⟩ := maskInv_of_reaches h ht
    obtain ⟨h₁, h₂, h₃⟩ := hI.count_le
    exact ⟨h₁, h₂, h₃⟩

/-- A batch of six weighings, up to the load of the enable register for the last
`ls1x_enable_gpio_interrupt (INPUT_SIGNAL)`. -/
def batchLabels : List Label :=
  grabLabels 3000 ++ (List.replicate 5 (weighLabels 2500 ++ resumeLabels)).flatten
    ++ weighLabels 2000 ++ resumeLabels ++ [.mainLoad]

/-- At the end of a batch: a batch's worth of pulses, none of them torn. -/
theorem weighing_batches_full_batch : ∃ tr s, Reaches 0 ⟨false, none⟩ tr s ∧
    tr.map Prod.snd = batchLabels ++ [.mainStore] ∧ s.main.adcMeasureCount = 0 ∧
    (s.main.ctrlFlow = 0 ↔ s.main.adcMeasureCount = 0) ∧ PulsesKept s := by
  obtain ⟨tr, s, h, hl, ht, hc⟩ := exists_reaches
    (batchLabels ++ [.mainStore])
    (fun r => (∀ x ∈ r.1, ¬ Torn x) ∧ r.2.main.adcMeasureCount = 0) (by decide +kernel)
  obtain ⟨-, -, h0, -, -, hk⟩ := weighing_batches h
  exact ⟨tr, s, h, hl, hc, h0, hk ht⟩

/-- `input_interrupt_isr2` between the load and the store of the last `ls1x_enable_gpio_interrupt`
of a batch: the store unmasks `INPUT_SIGNAL2` again while its message waits, and the next pulse puts
a second one into `main_mq`. -/
theorem torn_store_two_grabbed : ∃ tr s, Reaches 0 ⟨false, none⟩ tr s ∧
    tr.map Prod.snd
      = batchLabels ++ [.edge .inputSignal2, .mainStore, .edge .inputSignal2] ∧
    s.mainMq.items.count .grabbed = 2 ∧ ¬ PulsesKept s := by
  obtain ⟨tr, s, h, hl, hc⟩ := exists_reaches
    (batchLabels ++ [.edge .inputSignal2, .mainStore, .edge .inputSignal2])
    (fun r => r.2.mainMq.items.count .grabbed = 2)
    (by decide +kernel)
  have h2 : s.mainMq.items.count .grabbed = 2 := hc
  exact ⟨tr, s, h, hl, h2, fun hk => absurd hk.grabbed (by omega)⟩

end SortingLine.Sys
