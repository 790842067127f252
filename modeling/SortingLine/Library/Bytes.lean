import Mathlib.Data.List.Basic
import Mathlib.Data.List.GetD

/-!
# Words and characters in byte strings

Memory objects, queue slots and files are byte strings `List UInt8`; reading past the end gives
`0`.  A 32-bit word is stored least significant byte first, and word `i` lies at the bytes
`4 i, …, 4 i + 3`.

`patch b off src` is `b` with `src` written at offset `off`: a positional write into a file, or
`memcpy` into a buffer.  `getD_patch` describes it byte by byte and `wordAt_patch_words` word by
word; everything else about buffers and files follows from these two.
-/

namespace SortingLine

/-! ### Words -/

/-- The word with the bytes `b₀, …, b₃`, least significant first. -/
def ofBytes (b₀ b₁ b₂ b₃ : UInt8) : UInt32 :=
  UInt32.ofNat (b₀.toNat + 256 * b₁.toNat + 65536 * b₂.toNat + 16777216 * b₃.toNat)

/-- The four bytes of a word, least significant first. -/
def wordBytes (w : UInt32) : List UInt8 :=
  [UInt8.ofNat w.toNat, UInt8.ofNat (w.toNat / 256), UInt8.ofNat (w.toNat / 65536),
    UInt8.ofNat (w.toNat / 16777216)]

/-- Word `i` of a byte string. -/
def wordAt (b : List UInt8) (i : Nat) : UInt32 :=
  ofBytes (b.getD (4 * i) 0) (b.getD (4 * i + 1) 0) (b.getD (4 * i + 2) 0) (b.getD (4 * i + 3) 0)

/-- A list of words as bytes. -/
def words (ws : List UInt32) : List UInt8 := ws.flatMap wordBytes

@[simp]
theorem length_wordBytes (w : UInt32) : (wordBytes w).length = 4 := rfl

@[simp]
theorem words_nil : words [] = [] := rfl

@[simp]
theorem words_cons (w : UInt32) (ws : List UInt32) : words (w :: ws) = wordBytes w ++ words ws :=
  rfl

@[simp]
theorem length_words (ws : List UInt32) : (words ws).length = 4 * ws.length := by
  induction ws with
  | nil => rfl
  | cons w ws ih =>
    rw [words_cons, List.length_append, ih, length_wordBytes, List.length_cons]
    omega

/-- Taking a word apart and putting it together again. -/
theorem ofBytes_wordBytes (w : UInt32) :
    ofBytes (UInt8.ofNat w.toNat) (UInt8.ofNat (w.toNat / 256)) (UInt8.ofNat (w.toNat / 65536))
      (UInt8.ofNat (w.toNat / 16777216)) = w := by
  have hw := w.toNat_lt
  apply UInt32.toNat_inj.mp
  simp only [ofBytes, UInt32.toNat_ofNat', UInt8.toNat_ofNat']
  omega

/-- The last byte of a zero word. -/
theorem eq_zero_of_ofBytes {b₀ b₁ b₂ b₃ : UInt8} (h : ofBytes b₀ b₁ b₂ b₃ = 0) : b₃ = 0 := by
  have h₀ := b₀.toNat_lt
  have h₁ := b₁.toNat_lt
  have h₂ := b₂.toNat_lt
  have h₃ := b₃.toNat_lt
  have ht : (ofBytes b₀ b₁ b₂ b₃).toNat = 0 := congrArg UInt32.toNat h
  rw [ofBytes, UInt32.toNat_ofNat'] at ht
  apply UInt8.toNat_inj.mp
  rw [UInt8.toNat_zero]
  omega

@[simp]
theorem wordAt_wordBytes_append_zero (w : UInt32) (b : List UInt8) :
    wordAt (wordBytes w ++ b) 0 = w :=
  ofBytes_wordBytes w

@[simp]
theorem wordAt_wordBytes_append_succ (w : UInt32) (b : List UInt8) (i : Nat) :
    wordAt (wordBytes w ++ b) (i + 1) = wordAt b i := by
  have h (k : Nat) : (wordBytes w ++ b).getD (4 + k) 0 = b.getD k 0 := by
    rw [List.getD_append_right _ _ _ _ (by simp)]
    simp
  unfold wordAt
  rw [← h, ← h, ← h, ← h]
  congr 2 <;> omega

/-- Word `i` of a string that starts with the words `ws`. -/
theorem wordAt_words_append (ws : List UInt32) (b : List UInt8) {i : Nat} (h : i < ws.length) :
    wordAt (words ws ++ b) i = ws.getD i 0 := by
  induction ws generalizing i with
  | nil => simp at h
  | cons w ws ih =>
    rw [words_cons, List.append_assoc]
    cases i with
    | zero => simp
    | succ i => simpa using ih (by simpa using h)

/-- Two strings that agree on the bytes of word `i` have the same word `i`. -/
theorem wordAt_congr {b c : List UInt8} {i : Nat}
    (h : ∀ k, 4 * i ≤ k → k < 4 * i + 4 → b.getD k 0 = c.getD k 0) : wordAt b i = wordAt c i := by
  unfold wordAt
  rw [h _ (by omega) (by omega), h _ (by omega) (by omega), h _ (by omega) (by omega),
    h _ (by omega) (by omega)]

/-! ### Positional writes -/

/-- `b` with `src` written at offset `off`; a gap between the end of `b` and `off` is filled
with zeros. -/
def patch (b : List UInt8) (off : Nat) (src : List UInt8) : List UInt8 :=
  b.take off ++ List.replicate (off - b.length) 0 ++ src ++ b.drop (off + src.length)

theorem length_patch (b : List UInt8) (off : Nat) (src : List UInt8) :
    (patch b off src).length = max b.length (off + src.length) := by
  simp only [patch, List.length_append, List.length_take, List.length_replicate, List.length_drop]
  omega

theorem getD_patch (b : List UInt8) (off : Nat) (src : List UInt8) (k : Nat) :
    (patch b off src).getD k 0
      = if off ≤ k ∧ k < off + src.length then src.getD (k - off) 0 else b.getD k 0 := by
  have hlen : (b.take off ++ List.replicate (off - b.length) 0).length = off := by
    rw [List.length_append, List.length_take, List.length_replicate]; omega
  unfold patch
  rw [List.append_assoc]
  rcases Nat.lt_or_ge k off with hk | hk
  · -- before the patch: a byte of `b`, or of the gap
    rw [if_neg (by omega), List.getD_append _ _ _ _ (by omega)]
    rcases Nat.lt_or_ge k b.length with hb | hb
    · rw [List.getD_append _ _ _ _ (by rw [List.length_take]; omega)]
      simp [List.getD_eq_getElem?_getD, hk]
    · rw [List.getD_append_right _ _ _ _ (by rw [List.length_take]; omega),
        List.getD_eq_default b 0 hb]
      simp only [List.getD_eq_getElem?_getD, List.getElem?_replicate]
      split_ifs <;> rfl
  · rw [List.getD_append_right _ _ _ _ (by omega), hlen]
    by_cases hs : k < off + src.length
    · rw [if_pos ⟨hk, hs⟩, List.getD_append _ _ _ _ (by omega)]
    · rw [if_neg (by omega), List.getD_append_right _ _ _ _ (by omega)]
      simp only [List.getD_eq_getElem?_getD, List.getElem?_drop]
      congr 2
      omega

/-- A patch with whole words at word `j` replaces the words `j, …, j + ws.length - 1`. -/
theorem wordAt_patch_words (b : List UInt8) (j : Nat) (ws : List UInt32) (i : Nat) :
    wordAt (patch b (4 * j) (words ws)) i
      = if j ≤ i ∧ i < j + ws.length then ws.getD (i - j) 0 else wordAt b i := by
  split_ifs with h
  · have hj : wordAt (patch b (4 * j) (words ws)) i = wordAt (words ws ++ []) (i - j) := by
      unfold wordAt
      simp only [getD_patch, length_words, List.append_nil]
      rw [if_pos (by omega), if_pos (by omega), if_pos (by omega), if_pos (by omega)]
      congr 2 <;> omega
    rw [hj, wordAt_words_append ws [] (by omega)]
  · refine wordAt_congr fun k hk hk' => ?_
    rw [getD_patch, length_words, if_neg (by omega)]

end SortingLine
