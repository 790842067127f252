import SortingLine.Controller.Messages

/-!
# The report text

`send_nb_msg` turns four numbers into twelve decimal digits, and `set_at_cmd` copies these to their
places in the publish command.  All are right but the hundreds digit of the threshold, computed as
`(v_threshold % 100) / 100`: it is always `'0'`.  The report is therefore right exactly for the
thresholds whose hundreds digit is 0 (`report_faithful_iff`).
-/

namespace SortingLine.Wire

/-! ### Digits -/

/-- The number that the decimal digits at the given places of a text spell. -/
def readDec (a : List UInt8) (places : List Nat) : Nat :=
  places.foldl (fun n i => 10 * n + ((a.getD i 0).toNat - 48)) 0

/-- An ASCII digit. -/
def IsDigit (c : UInt8) : Prop := 48 ≤ c.toNat ∧ c.toNat ≤ 57

instance : DecidablePred IsDigit := fun _ => inferInstanceAs (Decidable (_ ∧ _))

theorem toNat_digit {n : UInt32} (h : n.toNat < 10) : (digit n).toNat = n.toNat + 48 := by
  have h48 : (48 : UInt32).toNat = 48 := rfl
  rw [digit, UInt32.toNat_toUInt8, UInt32.toNat_add, h48]
  omega

/-- Places that hold the digits `ns`: what they spell. -/
theorem readDec_of_digits {a : List UInt8} {places : List Nat} {ns : List UInt32}
    (h : List.Forall₂ (fun i n => n.toNat < 10 ∧ (a.getD i 0).toNat = n.toNat + 48) places ns) :
    readDec a places = ns.foldl (fun k n => 10 * k + n.toNat) 0 ∧
    ∀ i ∈ places, IsDigit (a.getD i 0) := by
  constructor
  · unfold readDec
    generalize 0 = k
    induction h generalizing k with
    | nil => rfl
    | cons hd _ ih =>
      rw [List.foldl_cons, List.foldl_cons, hd.2, Nat.add_sub_cancel]
      exact ih _
  · intro i hi
    induction h with
    | nil => cases hi
    | cons hd _ ih =>
      rcases List.mem_cons.mp hi with rfl | hi
      · rw [IsDigit, hd.2]
        omega
      · exact ih hi

/-! ### `set_at_cmd` -/

section Fields

variable {r : List UInt8} {fs : List (Nat × Nat)} {i j : Nat}

theorem getElem?_foldl_set_of_not_mem (a : List UInt8) (h : i ∉ fs.map Prod.fst) :
    (fs.foldl (fun a f => a.set f.1 (r.getD f.2 0)) a)[i]? = a[i]? := by
  induction fs generalizing a with
  | nil => rfl
  | cons f fs ih =>
    rw [List.map_cons, List.mem_cons, not_or] at h
    rw [List.foldl_cons, ih _ h.2, List.getElem?_set_ne (Ne.symm h.1)]

/-- Assignments to different places of a text that is long enough all stay. -/
theorem getElem?_foldl_set_of_mem {a : List UInt8} (hn : (fs.map Prod.fst).Nodup)
    (ha : ∀ f ∈ fs, f.1 < a.length) (h : (i, j) ∈ fs) :
    (fs.foldl (fun a f => a.set f.1 (r.getD f.2 0)) a)[i]? = some (r.getD j 0) := by
  induction fs generalizing a with
  | nil => cases h
  | cons f fs ih =>
    rw [List.map_cons, List.nodup_cons] at hn
    rw [List.foldl_cons]
    rcases List.mem_cons.mp h with rfl | h
    · -- nothing is assigned to this place later
      rw [getElem?_foldl_set_of_not_mem _ hn.1,
        List.getElem?_set_self (ha (i, j) (List.mem_cons_self ..))]
    · refine ih hn.2 (fun f' hf' => ?_) h
      rw [List.length_set]
      exact ha f' (List.mem_cons_of_mem _ hf')

end Fields

/-- The places that `set_at_cmd` writes. -/
def atCmdPlaces : List Nat := atCmdFields.map Prod.fst

variable {a mqbuf : List UInt8} {r : ResParas} {t : TrStat}

theorem getD_setAtCmd {i j : Nat} (ha : 199 ≤ a.length) (hm : sendNbMsg r t <+: mqbuf)
    (h : (i, j) ∈ atCmdFields) (hj : j < 16) :
    (setAtCmd a mqbuf).getD i 0 = (sendNbMsg r t).getD j 0 := by
  have hlt : ∀ f ∈ atCmdFields, f.1 < a.length := by
    intro f hf
    have : f.1 < 199 := by revert f; decide
    omega
  rw [List.getD_eq_getElem?_getD, setAtCmd, getElem?_foldl_set_of_mem (by decide) hlt h]
  obtain ⟨stale, rfl⟩ := hm
  exact List.getD_append _ _ _ _ hj

/-! ### The report -/

/-- The text `a'` reports the numbers, and differs from `a` in their digits only. -/
structure Faithful (a a' : List UInt8) (r : ResParas) (t : TrStat) : Prop where
  measure : readDec a' [128, 130, 131, 132] = r.vMeasure.toNat
  threshold : readDec a' [149, 151, 152, 153] = r.vThreshold.toNat
  qualified : (a'.getD 140 0).toNat = r.qualified.toNat + 48
  msgId : readDec a' [84, 85, 86] = t.msgId.toNat
  digits : ∀ i ∈ atCmdPlaces, IsDigit (a'.getD i 0)
  others : ∀ i, i ∉ atCmdPlaces → a'[i]? = a[i]?

/-- A place of the report holds the digit that `send_nb_msg` computed for it. -/
theorem toNat_getD_setAtCmd {i j : Nat} {n : UInt32} (ha : 199 ≤ a.length)
    (hm : sendNbMsg r t <+: mqbuf) (h : (i, j) ∈ atCmdFields ∧ j < 16)
    (hd : (sendNbMsg r t).getD j 0 = digit n) (hn : n.toNat < 10) :
    n.toNat < 10 ∧ ((setAtCmd a mqbuf).getD i 0).toNat = n.toNat + 48 := by
  refine ⟨hn, ?_⟩
  rw [getD_setAtCmd ha hm h.1 h.2, hd, toNat_digit hn]

/-- The four digits of the measurement. -/
theorem report_measure (ha : 199 ≤ a.length) (hm : sendNbMsg r t <+: mqbuf)
    (hv : r.vMeasure.toNat ≤ 9999) :
    readDec (setAtCmd a mqbuf) [128, 130, 131, 132] = r.vMeasure.toNat ∧
    ∀ i ∈ [128, 130, 131, 132], IsDigit ((setAtCmd a mqbuf).getD i 0) := by
  obtain ⟨hread, hdigits⟩ := readDec_of_digits
    (.cons (toNat_getD_setAtCmd (i := 128) (j := 4) ha hm (by decide) rfl (by simp; omega))
    (.cons (toNat_getD_setAtCmd (i := 130) (j := 5) ha hm (by decide) rfl (by simp; omega))
    (.cons (toNat_getD_setAtCmd (i := 131) (j := 6) ha hm (by decide) rfl (by simp; omega))
    (.cons (toNat_getD_setAtCmd (i := 132) (j := 7) ha hm (by decide) rfl (by simp; omega)) .nil))))
  refine ⟨hread.trans ?_, hdigits⟩
  simp
  omega

/-- The three digits of the id. -/
theorem report_msgId (ha : 199 ≤ a.length) (hm : sendNbMsg r t <+: mqbuf)
    (hid : t.msgId.toNat ≤ 999) :
    readDec (setAtCmd a mqbuf) [84, 85, 86] = t.msgId.toNat ∧
    ∀ i ∈ [84, 85, 86], IsDigit ((setAtCmd a mqbuf).getD i 0) := by
  obtain ⟨hread, hdigits⟩ := readDec_of_digits
    (.cons (toNat_getD_setAtCmd (i := 84) (j := 9) ha hm (by decide) rfl (by simp; omega))
    (.cons (toNat_getD_setAtCmd (i := 85) (j := 10) ha hm (by decide) rfl (by simp; omega))
    (.cons (toNat_getD_setAtCmd (i := 86) (j := 11) ha hm (by decide) rfl (by simp; omega)) .nil)))
  refine ⟨hread.trans ?_, hdigits⟩
  simp
  omega

/-- The four digits of the threshold: the hundreds digit is always 0. -/
theorem report_threshold (ha : 199 ≤ a.length) (hm : sendNbMsg r t <+: mqbuf)
    (hth : r.vThreshold.toNat ≤ 9999) :
    readDec (setAtCmd a mqbuf) [149, 151, 152, 153]
      = 1000 * (r.vThreshold.toNat / 1000) + r.vThreshold.toNat % 100 ∧
    ∀ i ∈ [149, 151, 152, 153], IsDigit ((setAtCmd a mqbuf).getD i 0) := by
  obtain ⟨hread, hdigits⟩ := readDec_of_digits
    (.cons (toNat_getD_setAtCmd (i := 149) (j := 12) ha hm (by decide) rfl (by simp; omega))
    (.cons (toNat_getD_setAtCmd (i := 151) (j := 13) ha hm (by decide) rfl (by simp))
    (.cons (toNat_getD_setAtCmd (i := 152) (j := 14) ha hm (by decide) rfl (by simp; omega))
    (.cons (toNat_getD_setAtCmd (i := 153) (j := 15) ha hm (by decide) rfl (by simp; omega))
    .nil))))
  refine ⟨hread.trans ?_, hdigits⟩
  simp
  omega

/-- **When the report is right**: for a measurement and a threshold of at most four digits, a
verdict 0 or 1, an id of at most three digits and a command of at least 199 bytes, exactly when the
hundreds digit of the threshold is 0.  The buffer of the NB thread starts with the message
(`RtMq.recv_refines`); the rest of it does not matter. -/
theorem report_faithful_iff (hv : r.vMeasure ≤ 9999) (hth : r.vThreshold ≤ 9999)
    (hq : r.qualified = 0 ∨ r.qualified = 1) (hid : t.msgId ≤ 999) (ha : 199 ≤ a.length)
    (hm : sendNbMsg r t <+: mqbuf) :
    Faithful a (setAtCmd a mqbuf) r t ↔ r.vThreshold / 100 % 10 = 0 := by
  have hth' : r.vThreshold.toNat ≤ 9999 := UInt32.le_iff_toNat_le.mp hth
  have hq' : r.qualified.toNat < 10 := by rcases hq with h | h <;> simp [h]
  obtain ⟨hmeasure, hmeasure'⟩ := report_measure ha hm (UInt32.le_iff_toNat_le.mp hv)
  obtain ⟨hmsgId, hmsgId'⟩ := report_msgId ha hm (UInt32.le_iff_toNat_le.mp hid)
  obtain ⟨hthreshold, hthreshold'⟩ := report_threshold ha hm hth'
  have hqualified := (toNat_getD_setAtCmd (i := 140) (j := 8) ha hm (by decide) rfl hq').2
  have hhundreds : r.vThreshold / 100 % 10 = 0 ↔ r.vThreshold.toNat / 100 % 10 = 0 := by
    rw [← UInt32.toNat_inj]
    simp
  rw [hhundreds]
  constructor
  · -- the text spells the threshold without its hundreds
    intro h
    have := h.threshold
    omega
  · intro h
    refine ⟨hmeasure, by omega, hqualified, hmsgId, ?_, fun i => getElem?_foldl_set_of_not_mem a⟩
    have hplaces : ∀ i ∈ atCmdPlaces, i ∈ [84, 85, 86] ∨ i ∈ [128, 130, 131, 132] ∨
        i = 140 ∨ i ∈ [149, 151, 152, 153] := by decide
    intro i hi
    rcases hplaces i hi with hi | hi | rfl | hi
    · exact hmsgId' i hi
    · exact hmeasure' i hi
    · rw [IsDigit, hqualified]
      omega
    · exact hthreshold' i hi

/-- A threshold of 1050 is reported as it is. -/
theorem report_faithful_1050 : Faithful (List.replicate 199 46)
    (setAtCmd (List.replicate 199 46) (sendNbMsg ⟨1284, 1050, 1⟩ ⟨20, 7⟩))
    ⟨1284, 1050, 1⟩ ⟨20, 7⟩ :=
  (report_faithful_iff (by decide) (by decide) (.inr rfl) (by decide)
    (Nat.le_of_eq List.length_replicate.symm) (List.prefix_refl _)).mpr (by decide)

/-- The default threshold, 350, is reported as 50. -/
theorem report_threshold_350 :
    readDec (setAtCmd (List.replicate 199 46) (sendNbMsg ⟨1284, 350, 1⟩ ⟨20, 7⟩))
      [149, 151, 152, 153] = 50 ∧
    ¬ Faithful (List.replicate 199 46)
      (setAtCmd (List.replicate 199 46) (sendNbMsg ⟨1284, 350, 1⟩ ⟨20, 7⟩))
      ⟨1284, 350, 1⟩ ⟨20, 7⟩ := by
  have h : readDec (setAtCmd (List.replicate 199 46) (sendNbMsg ⟨1284, 350, 1⟩ ⟨20, 7⟩))
      [149, 151, 152, 153] = 50 := by decide +kernel
  refine ⟨h, fun hf => ?_⟩
  have := hf.threshold
  rw [h] at this
  exact absurd this (by decide)

end SortingLine.Wire
