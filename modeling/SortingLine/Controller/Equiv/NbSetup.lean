import SortingLine.Controller.NbSetup
import SortingLine.Controller.Equiv.NbConn
import SortingLine.Controller.Equiv.Telemetry
import SortingLine.Library.Words

/-!
# What the modem said

`nb_get_csq` takes the two characters at a fixed place of the answer for the signal quality, and
reads at most 20 bytes.  An answer with two numbers of two digits each has 21 bytes, and with a
number of one digit the second character is the comma, so only a two-digit quality with a one-digit
error rate is decoded (`csqDecoded_iff`).

`nb_get_time` takes any answer of 48 bytes for one with a date in it (`dateAdopted_iff`).
-/

namespace SortingLine.Nb

open Wire

/-! ### Numbers -/

/-- One digit or more. -/
def Number (s : List UInt8) : Prop := s ≠ [] ∧ ∀ c ∈ s, IsDigit c

theorem number_pair {a b : UInt8} (ha : IsDigit a) (hb : IsDigit b) : Number [a, b] :=
  ⟨List.cons_ne_nil _ _, List.forall_mem_cons.mpr ⟨ha, List.forall_mem_singleton.mpr hb⟩⟩

/-- What the digits spell. -/
def value (s : List UInt8) : Nat := readDec s (List.range s.length)

theorem Number.length_pos {s : List UInt8} (h : Number s) : 0 < s.length :=
  List.length_pos_of_ne_nil h.1

theorem charDigit_of_isDigit {c : UInt8} (h : IsDigit c) : charDigit c = (c.toNat : Int) - 48 := by
  have hc : c.toNat < 128 := Nat.lt_of_le_of_lt h.2 (by decide)
  rw [charDigit, Int8.toInt, UInt8.toInt8, BitVec.toInt_eq_toNat_of_lt]
  · rfl
  · show 2 * c.toNat < 256
    omega

/-- The word that two digits are stored as. -/
theorem toNat_twoDigits {a b : UInt8} (ha : IsDigit a) (hb : IsDigit b) :
    (UInt32.ofInt (charDigit a * 10 + charDigit b)).toNat
      = 10 * (a.toNat - 48) + (b.toNat - 48) := by
  obtain ⟨ha₀, ha₁⟩ := ha
  obtain ⟨hb₀, hb₁⟩ := hb
  rw [toNat_ofInt, charDigit_of_isDigit ⟨ha₀, ha₁⟩, charDigit_of_isDigit ⟨hb₀, hb₁⟩]
  omega

/-- The word that four digits are stored as. -/
theorem toNat_fourDigits {a b c d : UInt8} (ha : IsDigit a) (hb : IsDigit b) (hc : IsDigit c)
    (hd : IsDigit d) : (UInt32.ofInt (charDigit a * 1000 + charDigit b * 100 + charDigit c * 10
      + charDigit d)).toNat = 1000 * (a.toNat - 48) + 100 * (b.toNat - 48) + 10 * (c.toNat - 48)
        + (d.toNat - 48) := by
  rw [charDigit_of_isDigit ha, charDigit_of_isDigit hb, charDigit_of_isDigit hc,
    charDigit_of_isDigit hd]
  obtain ⟨ha₀, ha₁⟩ := ha
  obtain ⟨hb₀, hb₁⟩ := hb
  obtain ⟨hc₀, hc₁⟩ := hc
  obtain ⟨hd₀, hd₁⟩ := hd
  refine Int.ofNat_inj.mp ((natCast_toNat_ofInt ?_ ?_).trans ?_) <;> omega

/-! ### Signal quality -/

/-- The answer to `AT+CSQ`: `"\r\n+CSQ: r,b\r\n\r\nOK\r\n"`. -/
def csqReply (r b : List UInt8) : List UInt8 :=
  [13, 10, 43, 67, 83, 81, 58, 32] ++ r ++ [44] ++ b ++ [13, 10, 13, 10] ++ okText

theorem length_csqReply (r b : List UInt8) :
    (csqReply r b).length = 17 + r.length + b.length := by
  simp only [csqReply, okText, List.length_append, List.length_cons, List.length_nil]
  omega

theorem parseOk_csqReply (r b : List UInt8) : parseOk (csqReply r b) = true :=
  (parseOk_iff _).mpr (List.suffix_append ..)

/-- What decoding the signal quality should do: only answers are decoded, from the bytes received,
and to their value; and all answers with numbers of one or two digits are taken from the line. -/
structure CsqDecoded (rx : List UInt8) : Prop where
  sent : ∀ junk msg, (nbGetCsq junk rx).sent = some msg →
    ∃ r b, Number r ∧ Number b ∧ rx.take 20 = csqReply r b ∧
      (∀ junk', (nbGetCsq junk' rx).sent = some msg) ∧
      ∀ (m : Main) after, (m.recv msg after).1.stat.csq.toNat = value r
  accepted : ∀ r b, Number r → Number b → r.length ≤ 2 → b.length ≤ 2 → rx = csqReply r b →
    ∀ junk, (nbGetCsq junk rx).sent ≠ none ∧ (nbGetCsq junk rx).rest = []

variable {rx : List UInt8}

theorem nbGetCsq_of_parseOk (h : parseOk (rx.take 20) = true) (junk : Vector UInt8 40) :
    nbGetCsq junk rx = ⟨0, some (.csq ((filled junk.toList (rx.take 20)).getD 8 0)
      ((filled junk.toList (rx.take 20)).getD 9 0)), [.csq], rx.drop 20⟩ := by
  unfold nbGetCsq
  exact if_neg (not_not.mpr h)

theorem nbGetCsq_of_not_parseOk (h : parseOk (rx.take 20) = false) (junk : Vector UInt8 40) :
    nbGetCsq junk rx = ⟨-1, none, [.csq], rx.drop 20⟩ := by
  unfold nbGetCsq
  exact if_pos (by simp [h])

/-- The message for an answer: the first two characters from the quality on. -/
theorem nbGetCsq_sent {r b : List UInt8} (h : rx.take 20 = csqReply r b) (junk : Vector UInt8 40) :
    ∃ tail, (nbGetCsq junk rx).sent
      = some (.csq ((r ++ 44 :: tail).getD 0 0) ((r ++ 44 :: tail).getD 1 0)) := by
  have hok : parseOk (rx.take 20) = true := by rw [h, parseOk_csqReply]
  rw [nbGetCsq_of_parseOk hok, h]
  refine ⟨b ++ [13, 10, 13, 10] ++ okText ++ (junk.toList.set 0 0xFF).drop (csqReply r b).length,
    ?_⟩
  have hbuf : filled junk.toList (csqReply r b) =
      [13, 10, 43, 67, 83, 81, 58, 32] ++ (r ++ 44 :: (b ++ [13, 10, 13, 10] ++ okText ++
        (junk.toList.set 0 0xFF).drop (csqReply r b).length)) := by
    simp [filled, csqReply]
  rw [hbuf]
  rfl

/-- A quality of one digit is stored with the comma as its second digit. -/
theorem toNat_setCsq_comma {c : UInt8} (hc : IsDigit c) (t : TrStat) :
    (setCsq c 44 t).csq.toNat ≠ c.toNat - 48 := by
  obtain ⟨hc₀, hc₁⟩ := hc
  have hcomma : charDigit 44 = -4 := by decide
  rw [setCsq, toNat_ofInt, charDigit_of_isDigit ⟨hc₀, hc₁⟩, hcomma]
  omega

/-- The answer with two numbers of two digits is not taken for one: its last byte is not read. -/
theorem not_parseOk_of_long {r b : List UInt8} (hr : r.length = 2) (hb : b.length = 2)
    (hrx : rx = csqReply r b) : parseOk (rx.take 20) = false := by
  obtain ⟨a, a', rfl⟩ := List.length_eq_two.mp hr
  obtain ⟨c, c', rfl⟩ := List.length_eq_two.mp hb
  rw [hrx]
  rfl

/-- An answer that is read has a quality of two digits, if it is decoded right, and so an error rate
of one. -/
theorem CsqDecoded.exists_reply (h : CsqDecoded rx) (hok : parseOk (rx.take 20) = true) :
    ∃ r b, Number r ∧ Number b ∧ r.length = 2 ∧ b.length = 1 ∧ rx.take 20 = csqReply r b := by
  have hsent := nbGetCsq_of_parseOk hok (.replicate 40 0)
  obtain ⟨r, b, hr, hb, hform, -, hval⟩ := h.sent (.replicate 40 0) _ (by rw [hsent])
  have hread : (rx.take 20).length ≤ 20 := List.length_take_le ..
  rw [hform, length_csqReply] at hread
  have hr₀ := hr.length_pos
  have hb₀ := hb.length_pos
  obtain hr₁ | hr₂ : r.length = 1 ∨ r.length = 2 := by omega
  · -- the second digit is the comma
    obtain ⟨c, rfl⟩ := List.length_eq_one_iff.mp hr₁
    obtain ⟨tail, htail⟩ := nbGetCsq_sent hform (.replicate 40 0)
    rw [hsent] at htail
    have hstored := hval (.start 0) 0
    rw [Option.some.inj htail] at hstored
    have hvalue : value [c] = c.toNat - 48 := by simp [value, readDec]
    exact absurd (hstored.trans hvalue) (toNat_setCsq_comma (hr.2 c (by simp)) _)
  · exact ⟨r, b, hr, hb, hr₂, by omega, hform⟩

/-- An answer with a quality of two digits and an error rate of one is decoded right. -/
theorem csqDecoded_of_reply {r b : List UInt8} (hr : Number r) (hb : Number b) (hr₂ : r.length = 2)
    (hform : rx.take 20 = csqReply r b) : CsqDecoded rx := by
  have hok : parseOk (rx.take 20) = true := by rw [hform, parseOk_csqReply]
  refine ⟨fun junk msg hmsg => ⟨r, b, hr, hb, hform, ?_⟩, fun r' b' _ _ hr'₂ hb'₂ hrx junk => ?_⟩
  · obtain ⟨a, a', rfl⟩ := List.length_eq_two.mp hr₂
    have hsent (junk : Vector UInt8 40) : (nbGetCsq junk rx).sent = some (.csq a a') := by
      obtain ⟨tail, htail⟩ := nbGetCsq_sent hform junk
      exact htail
    rw [hsent] at hmsg
    obtain rfl := Option.some.inj hmsg
    refine ⟨hsent, fun m after => ?_⟩
    have hvalue : value [a, a'] = 10 * (a.toNat - 48) + (a'.toNat - 48) := by
      simp [value, readDec, List.range_succ]
    rw [hvalue, ← toNat_twoDigits (hr.2 a (by simp)) (hr.2 a' (by simp))]
    rfl
  · rw [nbGetCsq_of_parseOk hok]
    refine ⟨Option.some_ne_none _, List.drop_eq_nil_of_le ?_⟩
    -- a longer answer would not have been accepted
    by_contra hlen
    rw [hrx, length_csqReply] at hlen
    rw [not_parseOk_of_long (by omega) (by omega) hrx] at hok
    cases hok

/-- What is refused is decoded right, but for the answer that is too long. -/
theorem csqDecoded_of_refused (hok : parseOk (rx.take 20) = false)
    (hlong : ¬ ∃ r b, Number r ∧ Number b ∧ r.length = 2 ∧ b.length = 2 ∧ rx = csqReply r b) :
    CsqDecoded rx := by
  refine ⟨fun junk msg hmsg => ?_, fun r b hr hb hr₂ hb₂ hrx junk => ?_⟩
  · rw [nbGetCsq_of_not_parseOk hok] at hmsg
    cases hmsg
  · exfalso
    by_cases hl : r.length = 2 ∧ b.length = 2
    · exact hlong ⟨r, b, hr, hb, hl.1, hl.2, hrx⟩
    · have hlen := length_csqReply r b
      rw [List.take_of_length_le (by rw [hrx]; omega), hrx, parseOk_csqReply] at hok
      cases hok

/-- **When the signal quality is decoded right**: an answer is read whose quality has two digits and
whose error rate has one; or nothing is accepted, and nothing had to be. -/
theorem csqDecoded_iff (rx : List UInt8) : CsqDecoded rx ↔
    (∃ r b, Number r ∧ Number b ∧ r.length = 2 ∧ b.length = 1 ∧ rx.take 20 = csqReply r b) ∨
    parseOk (rx.take 20) = false ∧
      ¬ ∃ r b, Number r ∧ Number b ∧ r.length = 2 ∧ b.length = 2 ∧ rx = csqReply r b := by
  constructor
  · intro h
    cases hok : parseOk (rx.take 20) with
    | true => exact .inl (h.exists_reply hok)
    | false =>
      refine .inr ⟨rfl, ?_⟩
      rintro ⟨r, b, hr, hb, hr₂, hb₂, hrx⟩
      refine (h.accepted r b hr hb hr₂.le hb₂.le hrx (.replicate 40 0)).1 ?_
      rw [nbGetCsq_of_not_parseOk hok]
  · rintro (⟨r, b, hr, hb, hr₂, -, hform⟩ | ⟨hok, hlong⟩)
    · exact csqDecoded_of_reply hr hb hr₂ hform
    · exact csqDecoded_of_refused hok hlong

/-- The answer with two numbers of two digits is refused, and its last byte is left for the next
command; a quality of 5 is stored as 46; and after a bare `OK` what is stored was on the stack. -/
theorem csq_misread :
    nbGetCsq (.replicate 40 0) (csqReply [50, 49] [57, 57]) = ⟨-1, none, [.csq], [10]⟩ ∧
    (nbGetCsq (.replicate 40 0) (csqReply [53] [48])).sent = some (.csq 53 44) ∧
    ((Main.start 0).recv (.csq 53 44 : MainMsg Unit) 0).1.stat.csq = 46 ∧
    (nbGetCsq (.replicate 40 7) (13 :: 10 :: okText)).sent = some (.csq 7 7) ∧
    ¬ CsqDecoded (csqReply [50, 49] [57, 57]) := by
  refine ⟨by decide, by decide, by decide, by decide, fun h => ?_⟩
  exact (h.accepted [50, 49] [57, 57] (number_pair (by decide) (by decide))
    (number_pair (by decide) (by decide)) le_rfl le_rfl rfl (.replicate 40 0)).1 (by decide)

/-! ### Date -/

/-- What the second read of `nb_get_time` gets. -/
def csoconReply (rx arrived : List UInt8) : List UInt8 := (rx.drop 20 ++ arrived).take 50

/-- The answer carries a date: eight digits in hexadecimal, with a month and a day in range. -/
structure CarriesDate (reply : List UInt8) : Prop where
  pairs : ∀ i < 8, reply.getD (22 + 2 * i) 0 = 51 ∧ IsDigit (reply.getD (23 + 2 * i) 0)
  month : 1 ≤ readDec reply [31, 33] ∧ readDec reply [31, 33] ≤ 12
  day : 1 ≤ readDec reply [35, 37] ∧ readDec reply [35, 37] ≤ 31

/-- `main` after it has handled the message of a call, if there was one. -/
def afterCall (m : Main) (s : Setup) (after : UInt32) : Main :=
  s.sent.elim m fun msg => (m.recv msg after).1

/-- What taking the date from the network should do: a date is stored as its digits say, and all
other answers are ignored. -/
structure DateAdopted (rx arrived : List UInt8) : Prop where
  sent : ∀ junk, (nbGetTime junk rx arrived).sent ≠ none →
    CarriesDate (csoconReply rx arrived) ∧ ∀ (m : Main) (after : UInt32),
      let info := (afterCall m (nbGetTime junk rx arrived) after).info
      info.year.toNat = readDec (csoconReply rx arrived) [23, 25, 27, 29] ∧
      info.mon.toNat = readDec (csoconReply rx arrived) [31, 33] ∧
      info.day.toNat = readDec (csoconReply rx arrived) [35, 37]
  ignored : ¬ CarriesDate (csoconReply rx arrived) → ∀ junk,
    (nbGetTime junk rx arrived).sent = none ∧ ∀ (m : Main) (after : UInt32),
      (afterCall m (nbGetTime junk rx arrived) after).info = m.info

variable {arrived : List UInt8}

/-- The eight characters that `nb_get_time` takes. -/
def dateChars (reply : List UInt8) : Vector UInt8 8 :=
  #v[reply.getD 23 0, reply.getD 25 0, reply.getD 27 0, reply.getD 29 0, reply.getD 31 0,
    reply.getD 33 0, reply.getD 35 0, reply.getD 37 0]

/-- `nb_get_time` behind its first check. -/
theorem nbGetTime_of_parseOk (junk : Vector UInt8 60) (hok : parseOk (rx.take 20) = true) :
    nbGetTime junk rx arrived =
      if (csoconReply rx arrived).length ≠ 48 then
        ⟨-1, none, [.csoc, .csocon], (rx.drop 20 ++ arrived).drop 50⟩
      else ⟨0, some (.date (dateChars (filled (filled junk.toList (rx.take 20))
        (csoconReply rx arrived)))), [.csoc, .csocon, .csocl], (rx.drop 20 ++ arrived).drop 50⟩ :=
  if_neg (not_not.mpr hok)

theorem nbGetTime_of_not_parseOk (junk : Vector UInt8 60) (hok : parseOk (rx.take 20) = false) :
    nbGetTime junk rx arrived = ⟨-1, none, [.csoc], rx.drop 20⟩ :=
  if_pos (by simp [hok])

/-- An answer of 48 bytes covers all places that are read. -/
theorem dateChars_filled (junk : List UInt8) {reply : List UInt8} (h : reply.length = 48) :
    dateChars (filled junk reply) = dateChars reply := by
  have hget {i : Nat} (hi : i < 48) : (filled junk reply).getD i 0 = reply.getD i 0 :=
    List.getD_append _ _ _ _ (by omega)
  simp only [dateChars, hget (by omega : 23 < 48), hget (by omega : 25 < 48),
    hget (by omega : 27 < 48), hget (by omega : 29 < 48), hget (by omega : 31 < 48),
    hget (by omega : 33 < 48), hget (by omega : 35 < 48), hget (by omega : 37 < 48)]

/-- **What `nb_get_time` sends**: eight bytes of the answer if it has 48 bytes, or nothing. -/
theorem nbGetTime_sent (junk : Vector UInt8 60) (rx arrived : List UInt8) :
    (nbGetTime junk rx arrived).sent =
      if parseOk (rx.take 20) = true ∧ (csoconReply rx arrived).length = 48 then
        some (.date (dateChars (csoconReply rx arrived)))
      else none := by
  cases hok : parseOk (rx.take 20) with
  | false =>
    rw [nbGetTime_of_not_parseOk junk hok]
    simp
  | true =>
    rw [nbGetTime_of_parseOk junk hok]
    by_cases hlen : (csoconReply rx arrived).length = 48
    · simp [hlen, dateChars_filled _ hlen]
    · simp [hlen]

/-- The digits of a date are stored as what they spell. -/
theorem setDateTime_of_digits {reply : List UInt8}
    (h : ∀ i < 8, IsDigit (reply.getD (23 + 2 * i) 0)) (p : ProductInfo) :
    (setDateTime (dateChars reply) p).year.toNat = readDec reply [23, 25, 27, 29] ∧
    (setDateTime (dateChars reply) p).mon.toNat = readDec reply [31, 33] ∧
    (setDateTime (dateChars reply) p).day.toNat = readDec reply [35, 37] := by
  refine ⟨(toNat_fourDigits (h 0 (by omega)) (h 1 (by omega)) (h 2 (by omega))
    (h 3 (by omega))).trans ?_, (toNat_twoDigits (h 4 (by omega)) (h 5 (by omega))).trans ?_,
    (toNat_twoDigits (h 6 (by omega)) (h 7 (by omega))).trans ?_⟩
  all_goals simp only [readDec, List.foldl_cons, List.foldl_nil, Nat.reduceMul, Nat.reduceAdd,
    Nat.zero_add]
  omega

/-- **When only a date is adopted**: the answer does not come to be read, or does not have 48 bytes,
or it carries a date. -/
theorem dateAdopted_iff (rx arrived : List UInt8) : DateAdopted rx arrived ↔
    parseOk (rx.take 20) = false ∨ (csoconReply rx arrived).length ≠ 48 ∨
      CarriesDate (csoconReply rx arrived) := by
  constructor
  · intro h
    by_contra hc
    rw [not_or, not_or, Bool.not_eq_false, not_not] at hc
    obtain ⟨hok, hlen, hno⟩ := hc
    have hsent := (h.ignored hno (.replicate 60 0)).1
    rw [nbGetTime_sent, if_pos ⟨hok, hlen⟩] at hsent
    cases hsent
  · intro h
    have hcarries (junk : Vector UInt8 60) (hs : (nbGetTime junk rx arrived).sent ≠ none) :
        CarriesDate (csoconReply rx arrived) ∧
        (nbGetTime junk rx arrived).sent = some (.date (dateChars (csoconReply rx arrived))) := by
      rw [nbGetTime_sent] at hs ⊢
      split_ifs at hs ⊢ with hread
      · refine ⟨?_, rfl⟩
        rcases h with hok | hlen | hdate
        · simp [hok] at hread
        · exact absurd hread.2 hlen
        · exact hdate
      · exact absurd rfl hs
    refine ⟨fun junk hs => ?_, fun hno junk => ?_⟩
    · obtain ⟨hdate, hsent⟩ := hcarries junk hs
      refine ⟨hdate, fun m after => ?_⟩
      rw [afterCall, hsent]
      exact setDateTime_of_digits (fun i hi => (hdate.pairs i hi).2) m.info
    · have hsent : (nbGetTime junk rx arrived).sent = none :=
        by_contra fun hs => hno (hcarries junk hs).1
      exact ⟨hsent, fun m after => by rw [afterCall, hsent]; rfl⟩

/-- An answer of 48 letters `E` sends `main` the date 23331-231-231. -/
theorem date_from_error_text :
    (nbGetTime (.replicate 60 0) okText (.replicate 48 69)).sent = some (.date (.replicate 8 69)) ∧
    setDateTime (.replicate 8 69) initInfo =
      { initInfo with year := 23331, mon := 231, day := 231 } ∧
    ¬ DateAdopted okText (.replicate 48 69) := by
  refine ⟨by decide, by decide, fun h => ?_⟩
  have hpairs := (h.sent (.replicate 60 0) (by decide)).1.pairs 0 (by decide)
  exact absurd hpairs.1 (by decide)

end SortingLine.Nb
