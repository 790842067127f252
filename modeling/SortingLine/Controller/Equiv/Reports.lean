import SortingLine.Controller.Equiv.System

/-!
# Reports to the cloud

The records that `main` hands to the NB thread through `nbiot_mq`, and the acknowledgements that
come back.

* Of the records produced the NB thread takes a part, in order and none twice
  (`taken_sublist_produced`); it takes all of them exactly when every `send_nb_msg` found a free
  slot (`taken_append_waiting_eq_produced_iff`).
* An acknowledgement carries no id, and `main` shows its own `msg_id`, that of the newest record.
  This is the id of the acknowledged record exactly when the items weighed since are a multiple of
  1000 (`shown_id_iff`), the period of `set_msg_id`.
-/

namespace SortingLine.Sys

variable {s s' : Sys} {a : Label} {tempAdc : UInt16} {disk : Disk} {tr : List (Sys × Label)}

/-! ### No report twice -/

/-- The records `main` produced with `send_nb_msg`, in order. -/
def produced (tr : List (Sys × Label)) : List NbRecord := tr.flatMap fun x => nbRecords (effects x)

/-- The record, with its number, that a step takes out of `nbiot_mq` for `set_at_cmd`. -/
def takes (x : Sys × Label) : List (NbRecord × Nat) :=
  match x.2 with
  | .nbRecv => x.1.nbiotMq.items.take 1
  | _ => []

/-- The records the NB thread took out of `nbiot_mq` and passed to `set_at_cmd`, in order. -/
def taken (tr : List (Sys × Label)) : List NbRecord := (tr.flatMap takes).map Prod.fst

/-- A `send_nb_msg` that finds `nbiot_mq` full. -/
def NbDropped (x : Sys × Label) : Prop := Weighs x ∧ x.1.nbiotMq.Full

instance : DecidablePred NbDropped := fun _ => inferInstanceAs (Decidable (_ ∧ _))

theorem produced_concat (x : Sys × Label) :
    produced (tr ++ [x]) = produced tr ++ nbRecords (effects x) := by
  simp [produced]

/-- The count of the items is the number of the records produced. -/
theorem weighed_eq_length_produced (h : Reaches tempAdc disk tr s) :
    s.weighed = (produced tr).length := by
  induction h with
  | start => rfl
  | next hr ha ih => rw [(step_effects ha).1.weighed, ih, produced_concat, List.length_append]

/-- A step finds a slot for the record it sends, if it sends one. -/
theorem not_nbDropped_iff (h : s.step a = some s') :
    ¬ NbDropped (s, a) ↔ (nbRecords (effects (s, a))).zipIdx (s.weighed + 1) = [] ∨
      s.nbiotMq.items.length
        + ((nbRecords (effects (s, a))).zipIdx (s.weighed + 1)).length ≤ 2 := by
  rcases step_records h with ⟨m, after, rfl, -, he, -⟩ | ⟨adc, rfl, hpc, -, he, -⟩ | hq
  · simp [he, NbDropped, Weighs]
  · have hfull : ¬ s.nbiotMq.Full ↔ s.nbiotMq.items.length + 1 ≤ 2 := by
      unfold BQueue.Full
      omega
    simp [he, NbDropped, Weighs, hpc, hfull, nbRecords, Main.readWeigh]
  · simp [hq.nbRecords, NbDropped, hq.not_weighs]

/-- The history of `nbiot_mq`. -/
theorem flow_nbiotMq (h : Reaches tempAdc disk tr s) : BQueue.Flow ((produced tr).zipIdx 1)
    (tr.flatMap takes) s.nbiotMq (∀ x ∈ tr, ¬ NbDropped x) := by
  induction h with
  | start => exact ⟨by simp [start], by simp [start, produced]⟩
  | @next tr s s' a hr ha ih =>
    rw [produced_concat, List.zipIdx_append, ← weighed_eq_length_produced hr, Nat.add_comm 1,
      List.flatMap_append, List.flatMap_singleton]
    have htake : a = .nbRecv → takes (s, a) = s.nbiotMq.items.take 1 := by
      rintro rfl
      rfl
    have hnone : a ≠ .nbRecv → takes (s, a) = [] := by
      intro hn
      cases a <;> first | rfl | exact absurd rfl hn
    refine (ih.moves (moves_nbiotMq ha) htake hnone).congr ?_
    rw [← not_nbDropped_iff ha, List.forall_mem_append, List.forall_mem_singleton]

/-- What the NB thread took and what still waits for it, of all that was produced: a part, in the
order of production. -/
theorem taken_sublist_produced (h : Reaches tempAdc disk tr s) :
    List.Sublist (taken tr ++ s.nbiotMq.items.map Prod.fst) (produced tr) := by
  have := (flow_nbiotMq h).sublist.map Prod.fst
  rwa [List.map_append, List.zipIdx_map_fst] at this

/-- **When every item is reported exactly once**: exactly when every `send_nb_msg` found a free
slot. -/
theorem taken_append_waiting_eq_produced_iff (h : Reaches tempAdc disk tr s) :
    taken tr ++ s.nbiotMq.items.map Prod.fst = produced tr ↔ ∀ x ∈ tr, ¬ NbDropped x := by
  have hflow := flow_nbiotMq h
  rw [← hflow.eq_iff]
  constructor
  · -- a part of the same length is the whole
    intro he
    refine hflow.sublist.eq_of_length ?_
    have := congrArg List.length he
    simpa [taken] using this
  · intro he
    have := congrArg (List.map Prod.fst) he
    rwa [List.map_append, List.zipIdx_map_fst] at this

/-- The NB thread, ready for its first record. -/
def nbReadyLabels : List Label := [.nbStart true, .nbCsq none, .nbTime none]

/-- Two items; the NB thread publishes the first while the second waits. -/
theorem taken_append_waiting_two_items : ∃ tr s, Reaches 0 ⟨false, none⟩ tr s ∧
    tr.map Prod.snd = nbReadyLabels ++ grabLabels 3000 ++ weighLabels 2500
      ++ [.nbRecv] ++ resumeLabels ++ weighLabels 2400 ∧
    (produced tr).length = 2 ∧ (taken tr).length = 1 ∧
    taken tr ++ s.nbiotMq.items.map Prod.fst = produced tr := by
  obtain ⟨tr, s, h, hl, hp, ht, hd⟩ := exists_reaches
    (nbReadyLabels ++ grabLabels 3000 ++ weighLabels 2500 ++ [.nbRecv] ++ resumeLabels
      ++ weighLabels 2400)
    (fun r => (produced r.1).length = 2 ∧ (taken r.1).length = 1 ∧ ∀ x ∈ r.1, ¬ NbDropped x)
    (by decide +kernel)
  exact ⟨tr, s, h, hl, hp, ht, (taken_append_waiting_eq_produced_iff h).mpr hd⟩

/-- The NB thread is still publishing the first item of a batch when the fourth is weighed: its
record finds the second and the third in `nbiot_mq` and is lost. -/
theorem fourth_record_lost : ∃ tr s, Reaches 0 ⟨false, none⟩ tr s ∧
    tr.map Prod.snd = nbReadyLabels ++ grabLabels 3000 ++ weighLabels 2500
      ++ [.nbRecv] ++ resumeLabels ++ weighLabels 2400 ++ resumeLabels ++ weighLabels 2200
      ++ resumeLabels ++ weighLabels 1500 ∧
    taken tr ++ s.nbiotMq.items.map Prod.fst ≠ produced tr := by
  obtain ⟨tr, s, h, hl, hp⟩ := exists_reaches
    (nbReadyLabels ++ grabLabels 3000 ++ weighLabels 2500 ++ [.nbRecv] ++ resumeLabels
      ++ weighLabels 2400 ++ resumeLabels ++ weighLabels 2200 ++ resumeLabels ++ weighLabels 1500)
    (fun r => taken r.1 ++ r.2.nbiotMq.items.map Prod.fst ≠ produced r.1)
    (by decide +kernel)
  exact ⟨tr, s, h, hl, hp⟩

/-! ### Which report an acknowledgement is about -/

/-- The record travels in the system: in `nbiot_mq`, in the NB thread, or with an acknowledgement
in `main_mq`. -/
def Travels (s : Sys) (x : NbRecord × Nat) : Prop :=
  x ∈ s.nbiotMq.items ∨ s.nb = .publish x ∨ .published x ∈ s.mainMq.items

theorem step_mem_nbiotMq {x : NbRecord × Nat} (h : s.step a = some s')
    (hx : x ∈ s'.nbiotMq.items) :
    x ∈ s.nbiotMq.items ∨ x ∈ (nbRecords (effects (s, a))).zipIdx (s.weighed + 1) := by
  cases moves_nbiotMq h with
  | take y _ _ hq => exact .inl (hq ▸ List.mem_cons_of_mem _ hx)
  | send _ hq =>
    rw [hq] at hx
    exact BQueue.mem_sendAll hx

theorem step_publish {x : NbRecord × Nat} (h : s.step a = some s') (hx : s'.nb = .publish x) :
    s.nb = .publish x ∨ x ∈ s.nbiotMq.items := by
  by_cases hn : mover a = .nb
  · replace h := step_spec h
    cases a with
    | nbStart found => obtain ⟨-, rfl⟩ := h; cases found <;> cases hx
    | nbCsq => obtain ⟨-, ⟨_, _, -, rfl⟩ | ⟨-, rfl⟩⟩ := h <;> cases hx
    | nbTime => obtain ⟨-, ⟨_, -, rfl⟩ | ⟨-, rfl⟩⟩ := h <;> cases hx
    | nbRecv =>
      obtain ⟨y, q, -, hq, rfl⟩ := h
      obtain rfl : y = x := NbPc.publish.inj hx
      exact .inr (by simp [hq])
    | nbDone => obtain ⟨_, -, ⟨-, rfl⟩ | ⟨-, rfl⟩⟩ := h <;> cases hx
    | _ => cases hn
  · rw [(step_frame h).nb hn] at hx
    exact .inl hx

theorem step_published {x : NbRecord × Nat} (h : s.step a = some s')
    (hx : .published x ∈ s'.mainMq.items) : .published x ∈ s.mainMq.items ∨ s.nb = .publish x := by
  cases moves_mainMq h with
  | take m _ _ hq => exact .inl (hq ▸ List.mem_cons_of_mem _ hx)
  | send _ hq =>
    rw [hq] at hx
    rcases BQueue.mem_sendAll hx with hx | hx
    · exact .inl hx
    · -- only the NB thread, done with a record, sends this
      rcases posted_cases (Option.mem_toList.mp hx) with ⟨-, h⟩ | ⟨-, h⟩ | ⟨up, -, h⟩ |
        ⟨rbuf, -, -, h⟩ | ⟨_, -, h⟩ | ⟨_, -, h⟩ | ⟨y, -, hn, h⟩
      · cases h
      · cases h
      · cases up <;> cases h
      · rcases sendFileMsg_cases (τ := NbRecord × Nat) rbuf with hr | ⟨_, _, _, _, hr⟩ <;>
          rw [hr] at h <;> cases h
      · cases h
      · cases h
      · cases h
        exact .inr hn

/-- Only a weighing puts a record on its way. -/
theorem step_travels {x : NbRecord × Nat} (h : s.step a = some s') (hx : Travels s' x) :
    Travels s x ∨ x ∈ (nbRecords (effects (s, a))).zipIdx (s.weighed + 1) := by
  rcases hx with hx | hx | hx
  · exact (step_mem_nbiotMq h hx).imp_left .inl
  · rcases step_publish h hx with hx | hx
    · exact .inl (.inr (.inl hx))
    · exact .inl (.inl hx)
  · rcases step_published h hx with hx | hx
    · exact .inl (.inr (.inr hx))
    · exact .inl (.inr (.inl hx))

/-- A record on its way was produced, at the place its number says. -/
theorem mem_produced_of_travels {x : NbRecord × Nat} (h : Reaches tempAdc disk tr s)
    (hx : Travels s x) : x ∈ (produced tr).zipIdx 1 := by
  -- a record on its way was on its way before, or is the one just produced
  induction h with
  | start => simp [Travels, start] at hx
  | @next tr s s' a hr ha ih =>
    rw [produced_concat, List.zipIdx_append, ← weighed_eq_length_produced hr, Nat.add_comm 1,
      List.mem_append]
    exact (step_travels ha hx).imp_left ih

/-- `set_msg_id` counts modulo 1000. -/
theorem toNat_msgId_setMsgId {t : TrStat} {n : Nat} (h : t.msgId.toNat = n % 1000) :
    (setMsgId t).msgId.toNat = (n + 1) % 1000 := by
  have hlt : t.msgId.toNat + 1 < 2 ^ 32 := by omega
  have hadd : (t.msgId + 1).toNat = t.msgId.toNat + 1 := by
    rw [UInt32.toNat_add]
    exact Nat.mod_eq_of_lt hlt
  rw [setMsgId]
  split_ifs with hc <;> simp only [gt_iff_lt, UInt32.lt_iff_toNat_lt, hadd] at hc
  · have hc' : 999 < t.msgId.toNat + 1 := hc
    show 0 = _
    omega
  · have hc' : ¬ 999 < t.msgId.toNat + 1 := hc
    rw [hadd]
    omega

theorem recv_msgId {τ : Type} (m : Main) (msg : MainMsg τ) (after : UInt32) :
    (m.recv msg after).1.stat.msgId = m.stat.msgId := by
  cases msg <;> simp only [Main.recv] <;> try split_ifs
  all_goals rfl

/-- The id of `main` and those of the records produced count the items modulo 1000. -/
theorem msgId_of_reaches (h : Reaches tempAdc disk tr s) :
    s.main.stat.msgId.toNat = s.weighed % 1000 ∧
    ∀ x ∈ (produced tr).zipIdx 1, x.1.msgId.toNat = x.2 % 1000 := by
  induction h with
  | start => exact ⟨rfl, by simp [produced]⟩
  | @next tr s s' a hr ha ih =>
    obtain ⟨hid, hrec⟩ := ih
    rw [(step_effects ha).1.weighed, produced_concat, List.zipIdx_append,
      ← weighed_eq_length_produced hr]
    rcases step_records ha with ⟨m, after, -, -, he, hm⟩ | ⟨adc, -, -, -, he, hm⟩ | hq
    · rw [he, hm, recv_msgId, nbRecords_recv, List.zipIdx_nil, List.append_nil]
      exact ⟨hid, hrec⟩
    · have hnew := toNat_msgId_setMsgId hid
      rw [he, hm]
      refine ⟨hnew, fun x hx => ?_⟩
      rcases List.mem_append.mp hx with hx | hx
      · exact hrec x hx
      · obtain rfl : x = (sendNbMsg (s.main.measure (adc.getD s.main.tempAdc))
            (setMsgId s.main.stat), 1 + s.weighed) := by
          simpa [Main.readWeigh, nbRecords] using hx
        rw [Nat.add_comm]
        exact hnew
    · rw [hq.stat, hq.nbRecords, List.zipIdx_nil, List.append_nil]
      exact ⟨hid, hrec⟩

/-- **When the id shown is the one that was sent.**  When `main` takes the acknowledgement of the
`k`-th record, the id it shows is that record's exactly when the number of the items weighed since
is a multiple of 1000. -/
theorem shown_id_iff (h : Reaches tempAdc disk tr s) {after : UInt32} {r : NbRecord} {k : Nat}
    (hm : s.mainMq.items.head? = some (.published (r, k))) :
    (1 ≤ k ∧ k ≤ (produced tr).length ∧ (produced tr)[k - 1]? = some r) ∧
    (outputs (effects (s, .mainRecv after)) = [.msgId r.msgId] ↔
      ((produced tr).length - k) % 1000 = 0) := by
  have hmem : (r, k) ∈ (produced tr).zipIdx 1 :=
    mem_produced_of_travels h (.inr (.inr (List.mem_of_mem_head? hm)))
  obtain ⟨hid, hrec⟩ := msgId_of_reaches h
  have hk := hrec _ hmem
  obtain ⟨hk1, hget⟩ := List.mk_mem_zipIdx_iff_le_and_getElem?_sub.mp hmem
  have hlt : k - 1 < (produced tr).length := (List.getElem?_eq_some_iff.mp hget).1
  refine ⟨⟨hk1, by omega, hget⟩, ?_⟩
  obtain ⟨ms, hms⟩ : ∃ ms, s.mainMq.items = .published (r, k) :: ms := by
    cases hi : s.mainMq.items with
    | nil => simp [hi] at hm
    | cons m ms => simp [hi] at hm; exact ⟨ms, by rw [hm]⟩
  have ho : outputs (effects (s, .mainRecv after)) = [.msgId s.main.stat.msgId] := by
    simp [effects, hms, Main.recv, outputs, sendMsgIdMsg]
  -- both ids count the records modulo 1000
  rw [weighed_eq_length_produced h] at hid
  rw [ho, List.cons.injEq, OutMsg.msgId.injEq, ← UInt32.toNat_inj, hid, hk]
  simp only [and_true]
  omega

/-- The first item is acknowledged before the second is weighed: its own id, 1, is shown. -/
theorem shown_id_first_item : ∃ tr s r, Reaches 0 ⟨false, none⟩ tr s ∧
    tr.map Prod.snd = nbReadyLabels ++ grabLabels 3000 ++ weighLabels 2500 ++ [.nbRecv]
      ++ resumeLabels ++ [.nbDone true] ∧
    s.mainMq.items.head? = some (.published (r, 1)) ∧ (produced tr).length = 1 ∧
    outputs (effects (s, .mainRecv 0)) = [.msgId r.msgId] := by
  obtain ⟨tr, s, h, hl, hm, hp⟩ := exists_reaches
    (nbReadyLabels ++ grabLabels 3000 ++ weighLabels 2500 ++ [.nbRecv] ++ resumeLabels
      ++ [.nbDone true])
    (fun r => r.2.mainMq.items.head? = some (.published (⟨1000, 1, 1, 350⟩, 1)) ∧
      (produced r.1).length = 1) (by decide +kernel)
  have hp' : (produced tr).length = 1 := hp
  exact ⟨tr, s, _, h, hl, hm, hp, (shown_id_iff h hm).2.mpr (by rw [hp'])⟩

/-- The first item is acknowledged after the second was weighed: the id shown is 2, but what was
sent is the record with the id 1. -/
theorem shown_id_not_sent : ∃ tr s r, Reaches 0 ⟨false, none⟩ tr s ∧
    tr.map Prod.snd = nbReadyLabels ++ grabLabels 3000 ++ weighLabels 2500 ++ [.nbRecv]
      ++ resumeLabels ++ weighLabels 2400 ++ [.nbDone true] ++ resumeLabels ∧
    s.mainMq.items.head? = some (.published (r, 1)) ∧ (s.step (.mainRecv 0)).isSome = true ∧
    r.msgId = 1 ∧ outputs (effects (s, .mainRecv 0)) = [.msgId 2] := by
  obtain ⟨tr, s, h, hl, hm, hs, ho⟩ := exists_reaches
    (nbReadyLabels ++ grabLabels 3000 ++ weighLabels 2500 ++ [.nbRecv] ++ resumeLabels
      ++ weighLabels 2400 ++ [.nbDone true] ++ resumeLabels)
    (fun r => r.2.mainMq.items.head? = some (.published (⟨1000, 1, 1, 350⟩, 1)) ∧
      (r.2.step (.mainRecv 0)).isSome = true ∧
      outputs (effects (r.2, .mainRecv 0)) = [.msgId 2]) (by decide +kernel)
  exact ⟨tr, s, _, h, hl, hm, hs, rfl, ho⟩

end SortingLine.Sys
