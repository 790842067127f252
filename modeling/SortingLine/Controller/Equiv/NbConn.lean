import Mathlib.Data.List.GetD
import SortingLine.Controller.NbConn

/-!
# What a successful publish proves

`nb_send_v_q` returns 0 when the last bytes it read end in `OK` and a line end.  These bytes need
not be the answer to its own `AT+CMQPUB`: the answers to earlier commands may still have been
waiting, and the read stops after 60 bytes.

The bytes on the line form one stream (`Uart.stream`): commands append to it, arrivals leave it as
it is, reads cut it at the front.  Before the last read it ends with the answer to `AT+CMQPUB`, so
the read contains the final `OK` of this answer and ends in `OK` exactly if it takes the whole
stream: everything has arrived, and it is at most 60 bytes (`accepted_iff`).
-/

namespace SortingLine.Nb

/-! ### `parse_ok` -/

theorem parseOk_append_four (xs : List UInt8) (a b c d : UInt8) :
    parseOk (xs ++ [a, b, c, d]) = true ↔ [a, b, c, d] = okText := by
  have hget (k : Nat) (hk : k < 4) :
      (xs ++ [a, b, c, d]).getD (xs.length + 4 - (4 - k)) 0 = [a, b, c, d].getD k 0 := by
    rw [List.getD_append_right _ _ _ _ (by omega)]
    congr 1
    omega
  have h0 := hget 0 (by omega)
  have h1 := hget 1 (by omega)
  have h2 := hget 2 (by omega)
  have h3 := hget 3 (by omega)
  simp only [List.getD_cons_zero, List.getD_cons_succ, Nat.sub_zero, Nat.reduceSub] at h0 h1 h2 h3
  simp only [parseOk, List.length_append, List.length_cons, List.length_nil, Nat.zero_add,
    Nat.reduceAdd, h0, h1, h2, h3, okText]
  simp
  tauto

/-- `parse_ok` looks for `OK` and a line end at the end. -/
theorem parseOk_iff (s : List UInt8) : parseOk s = true ↔ okText <:+ s := by
  by_cases hl : 4 ≤ s.length
  · obtain ⟨a, b, c, d, hd⟩ : ∃ a b c d, s.drop (s.length - 4) = [a, b, c, d] := by
      have hlen : (s.drop (s.length - 4)).length = 4 := by rw [List.length_drop]; omega
      match hs : s.drop (s.length - 4), hlen with
      | [a, b, c, d], _ => exact ⟨a, b, c, d, rfl⟩
    have hs : s = s.take (s.length - 4) ++ [a, b, c, d] := by
      rw [← hd, List.take_append_drop]
    rw [hs, parseOk_append_four]
    constructor
    · intro h
      rw [h]
      exact List.suffix_append _ _
    · rintro ⟨ys, hys⟩
      exact (List.append_inj_right' hys rfl).symm
  · have hf : parseOk s = false := by simp [parseOk, hl]
    rw [hf]
    refine iff_of_false (by simp) fun h => hl ?_
    exact h.length_le

/-! ### The stream -/

namespace Uart

variable {u : Uart} {c : Nat}

/-- Everything the modem has sent or will send, and that was not read yet. -/
def stream (u : Uart) : List RxByte := u.rx ++ u.coming

theorem stream_write (reply : List RxByte) : (u.write reply).stream = u.stream ++ reply := by
  simp [stream, write]

theorem stream_arrive (k : Nat) : (u.arrive k).stream = u.stream := by
  simp [stream, arrive]

theorem mem_stream_read {size : Nat} {b : RxByte} (h : b ∈ (u.read size).2.stream) :
    b ∈ u.stream := by
  simp only [stream, read, List.mem_append] at h ⊢
  exact h.imp_left List.mem_of_mem_drop

/-- All marks on the line are of calls before number `c`. -/
def Fresh (c : Nat) (u : Uart) : Prop := ∀ b ∈ u.stream, ∀ k, b.okOf = some k → k < c

theorem okOf_of_mem_plain {b : RxByte} {bs : List UInt8} (h : b ∈ plain bs) : b.okOf = none := by
  obtain ⟨x, -, rfl⟩ := List.mem_map.mp h
  rfl

theorem Fresh.command (h : u.Fresh c) (reply : Reply) (arrivals size : Nat) :
    (u.command reply arrivals size).2.Fresh c := by
  intro b hb k hk
  have hb' := mem_stream_read hb
  rw [stream_arrive, stream_write, List.mem_append] at hb'
  rcases hb' with hb' | hb'
  · exact h b hb' k hk
  · rw [okOf_of_mem_plain hb'] at hk
    cases hk

theorem Fresh.write_unmarked (h : u.Fresh c) (reply : Reply) :
    (u.write reply.unmarked).Fresh c := by
  intro b hb k hk
  rw [stream_write, List.mem_append] at hb
  rcases hb with hb | hb
  · exact h b hb k hk
  · rw [okOf_of_mem_plain hb] at hk
    cases hk

end Uart

variable {u : Uart} {c : Nat} {e : Exchange}

theorem fresh_connect (h : u.Fresh c) : (connect e u).2.Fresh c := by
  have h₀ := h.write_unmarked e.discon
  have h₁ := h₀.command e.new e.newArrivals 40
  have h₂ := h₁.command e.cfg e.cfgArrivals 40
  have h₃ := h₂.command e.con e.conArrivals 40
  simp only [connect]
  split_ifs
  · exact h₃
  · exact h₃
  · exact h₂
  · exact h₁

/-- Before the last read the stream ends with the answer to this call's `AT+CMQPUB`, and nothing
before it carries this call's mark. -/
theorem stream_publish (h : u.Fresh c) : ∃ old, (publish c e u).stream = old ++ e.pub.marked c ∧
    ∀ b ∈ old, ∀ k, b.okOf = some k → k < c := by
  refine ⟨(u.command e.at_ e.atArrivals 16).2.stream, ?_, h.command e.at_ e.atArrivals 16⟩
  simp only [publish]
  rw [Uart.stream_arrive, Uart.stream_write]

/-! ### The last read -/

/-- The bytes include the final `OK` of the answer to the `AT+CMQPUB` of call `c`. -/
def Accepted (c : Nat) (buf : List RxByte) : Prop :=
  ⟨79, some c⟩ ∈ buf ∧ ⟨75, some c⟩ ∈ buf

theorem take_eq_stream_iff (u : Uart) :
    u.rx.take 60 = u.stream ↔ u.coming = [] ∧ u.rx.length ≤ 60 := by
  constructor
  · intro h
    have hlen := congrArg List.length h
    rw [List.length_take, Uart.stream, List.length_append] at hlen
    exact ⟨List.length_eq_zero_iff.mp (by omega), by omega⟩
  · rintro ⟨hc, hl⟩
    rw [List.take_of_length_le hl, Uart.stream, hc, List.append_nil]

/-- A piece from the front of the stream that contains the marked `OK` and is accepted by `parse_ok`
is the whole stream. -/
theorem eq_stream_of_accepted {old buf : List RxByte} {c : Nat}
    (hpre : buf <+: old ++ [⟨79, some c⟩, ⟨75, some c⟩, ⟨13, none⟩, ⟨10, none⟩])
    (hold : ∀ b ∈ old, b.okOf ≠ some c) (hok : parseOk (text buf) = true) (ha : Accepted c buf) :
    buf = old ++ [⟨79, some c⟩, ⟨75, some c⟩, ⟨13, none⟩, ⟨10, none⟩] := by
  have hlast : ∀ xs b, buf = xs ++ [b] → b.byte = 10 := by
    rintro xs b rfl
    obtain ⟨ys, hys⟩ := (parseOk_iff _).mp hok
    have : ys ++ [79, 75, 13] ++ [10] = text xs ++ [b.byte] := by
      simpa [okText, text] using hys
    exact (List.singleton_inj.mp (List.append_inj_right' this rfl)).symm
  have hnot : ⟨75, some c⟩ ∉ old := fun h => hold _ h rfl
  obtain ⟨t, ht⟩ := hpre
  rcases List.append_eq_append_iff.mp ht with ⟨rest, rfl, -⟩ | ⟨tail, rfl, htail⟩
  · exact absurd (List.mem_append_left _ ha.2) hnot
  -- `tail` is what the piece has of the marked end: only all of it will do
  rcases tail with _ | ⟨x, _ | ⟨y, _ | ⟨z, _ | ⟨w, tail'⟩⟩⟩⟩ <;>
    simp only [List.cons_append, List.nil_append, List.cons.injEq] at htail
  · exact absurd (by simpa using ha.2) hnot
  · obtain ⟨rfl, -⟩ := htail
    exact absurd (by simpa using ha.2) hnot
  · obtain ⟨rfl, rfl, -⟩ := htail
    have := hlast (old ++ [⟨79, some c⟩]) ⟨75, some c⟩ (by simp)
    cases this
  · obtain ⟨rfl, rfl, rfl, -⟩ := htail
    have := hlast (old ++ [⟨79, some c⟩, ⟨75, some c⟩]) ⟨13, none⟩ (by simp)
    cases this
  · obtain ⟨rfl, rfl, rfl, rfl, h⟩ := htail
    obtain ⟨rfl, -⟩ := List.append_eq_nil_iff.mp h.symm
    rfl

/-- **The last read** of a call: what `parse_ok` accepts includes the final `OK` of the answer to
this call's `AT+CMQPUB` exactly when that answer has arrived and at most 60 bytes wait. -/
theorem accepted_iff (h : u.Fresh c) (hok : parseOk (text ((publish c e u).rx.take 60)) = true) :
    Accepted c ((publish c e u).rx.take 60) ↔
      (publish c e u).coming = [] ∧ (publish c e u).rx.length ≤ 60 := by
  -- the read gets a piece from the front of the stream, and its own answer is at the end
  obtain ⟨old, hstream, hold⟩ := stream_publish (e := e) h
  rw [← take_eq_stream_iff]
  have hpre : (publish c e u).rx.take 60 <+: (publish c e u).stream :=
    (List.take_prefix _ _).trans (List.prefix_append _ _)
  generalize (publish c e u).rx.take 60 = buf at *
  rw [hstream] at hpre ⊢
  have hunmarked : ∀ b ∈ old ++ plain e.pub.body, b.okOf ≠ some c := by
    intro b hb hc
    rcases List.mem_append.mp hb with hb | hb
    · exact absurd (hold b hb c hc) (Nat.lt_irrefl c)
    · rw [Uart.okOf_of_mem_plain hb] at hc
      cases hc
  cases hr : e.pub.ok with
  | true =>
    have hm : old ++ e.pub.marked c = (old ++ plain e.pub.body) ++
        [⟨79, some c⟩, ⟨75, some c⟩, ⟨13, none⟩, ⟨10, none⟩] := by
      simp [Reply.marked, hr]
    rw [hm] at hpre ⊢
    constructor
    · exact eq_stream_of_accepted hpre hunmarked hok
    · rintro rfl
      simp [Accepted]
  | false =>
    have hm : old ++ e.pub.marked c = (old ++ plain e.pub.body) ++ plain errorText := by
      simp [Reply.marked, hr]
    rw [hm] at hpre ⊢
    refine iff_of_false (fun ha => ?_) ?_
    · -- a refused publish leaves no mark
      rcases List.mem_append.mp (hpre.subset ha.2) with hb | hb
      · exact hunmarked _ hb rfl
      · have := Uart.okOf_of_mem_plain hb
        cases this
    · rintro rfl
      obtain ⟨ys, hys⟩ := (parseOk_iff _).mp hok
      have h4 : ys ++ okText
          = (text (old ++ plain e.pub.body) ++ [69, 82, 82]) ++ [79, 82, 13, 10] := by
        simpa [text, plain, errorText] using hys
      have := List.append_inj_right' h4 rfl
      exact absurd this (by decide)

/-! ### Calls -/

/-- The call returned 0 only if what it looked at last includes the final `OK` of the answer to its
own `AT+CMQPUB`. -/
def Honest (c : Nat) (o : Outcome) : Prop :=
  o.ret = 0 → ∃ u, o.last = some u ∧ Accepted c (u.rx.take 60)

/-- At the last read, if the call came that far, all answers have arrived and at most 60 bytes
wait, or what the read gets does not end in `OK`. -/
def Conclusive (o : Outcome) : Prop :=
  ∀ u, o.last = some u →
    (u.coming = [] ∧ u.rx.length ≤ 60) ∨ parseOk (text (u.rx.take 60)) = false

/-- What a call does: it fails to connect, or it comes to the last read and returns what `parse_ok`
says. -/
theorem nbSendVQ_cases (c : Nat) (e : Exchange) (u : Uart) (h : u.Fresh c) :
    ((nbSendVQ c e u).1 = ⟨-1, none⟩ ∧ (nbSendVQ c e u).2.Fresh c) ∨
    ∃ u₁ : Uart, u₁.Fresh c ∧ (nbSendVQ c e u).2.stream = ((publish c e u₁).read 60).2.stream ∧
      (nbSendVQ c e u).1 = ⟨if parseOk (text ((publish c e u₁).rx.take 60)) then 0 else -1,
        some (publish c e u₁)⟩ := by
  have hc : (if u.flag then (true, u) else connect e u).2.Fresh c := by
    split_ifs
    · exact h
    · exact fresh_connect h
  -- from here on it does not matter how the connection was made
  unfold nbSendVQ
  generalize (if u.flag then (true, u) else connect e u) = r at *
  obtain ⟨connected, u₁⟩ := r
  cases connected with
  | false => exact .inl ⟨rfl, hc⟩
  | true =>
    refine .inr ⟨u₁, hc, ?_⟩
    simp only [not_true_eq_false, if_false]
    by_cases hp : parseOk (text ((publish c e u₁).rx.take 60)) = true
    · simp only [Uart.read, hp, not_true_eq_false, if_false, if_true]
      exact ⟨rfl, trivial⟩
    · simp only [Uart.read, hp]
      exact ⟨rfl, rfl⟩

theorem okOf_of_mem_marked {r : Reply} {b : RxByte} (h : b ∈ r.marked c) :
    b.okOf = none ∨ b.okOf = some c := by
  rw [Reply.marked, List.mem_append] at h
  rcases h with h | h
  · exact .inl (Uart.okOf_of_mem_plain h)
  · split_ifs at h
    · simp only [List.mem_cons, List.not_mem_nil, or_false] at h
      rcases h with rfl | rfl | rfl | rfl <;> simp
    · exact .inl (Uart.okOf_of_mem_plain h)

/-- After call `c` only marks up to `c` are on the line. -/
theorem fresh_nbSendVQ (h : u.Fresh c) : (nbSendVQ c e u).2.Fresh (c + 1) := by
  rcases nbSendVQ_cases c e u h with ⟨-, h'⟩ | ⟨u₁, h₁, hs, -⟩
  · intro b hb k hk
    exact Nat.lt_succ_of_lt (h' b hb k hk)
  · obtain ⟨old, hstream, hold⟩ := stream_publish (e := e) h₁
    intro b hb k hk
    rw [hs] at hb
    have hb' := Uart.mem_stream_read hb
    rw [hstream, List.mem_append] at hb'
    rcases hb' with hb' | hb'
    · exact Nat.lt_succ_of_lt (hold b hb' k hk)
    · rcases okOf_of_mem_marked hb' with hn | hn
      · rw [hn] at hk
        cases hk
      · rw [hn, Option.some.injEq] at hk
        omega

theorem honest_iff_conclusive (h : u.Fresh c) :
    Honest c (nbSendVQ c e u).1 ↔ Conclusive (nbSendVQ c e u).1 := by
  rcases nbSendVQ_cases c e u h with ⟨ho, -⟩ | ⟨u₁, h₁, -, ho⟩
  · rw [ho]
    exact iff_of_true (fun hr => by cases hr) (fun u hu => by cases hu)
  · rw [ho]
    by_cases hp : parseOk (text ((publish c e u₁).rx.take 60)) = true
    · simp [Honest, Conclusive, hp, accepted_iff h₁ hp]
    · simp [Honest, Conclusive, hp]

theorem honest_iff_conclusive_of_fresh (es : List Exchange) (h : u.Fresh c) {i : Nat} {o : Outcome}
    (ho : (nbSendAll c u es)[i]? = some o) : Honest (c + i) o ↔ Conclusive o := by
  -- each call leaves the line fresh for the next
  induction es generalizing c u i with
  | nil => simp [nbSendAll] at ho
  | cons e es ih =>
    cases i with
    | zero =>
      obtain rfl : (nbSendVQ c e u).1 = o := by simpa [nbSendAll] using ho
      exact honest_iff_conclusive h
    | succ i =>
      rw [nbSendAll, List.getElem?_cons_succ] at ho
      rw [← Nat.add_assoc, Nat.add_right_comm]
      exact ih (fresh_nbSendVQ h) ho

/-- **When a reported publish was accepted.**  In every sequence of calls and for every timing of
the answers, a call returns 0 only if its own publish was acknowledged, exactly when its last read
is conclusive. -/
theorem publish_honest_iff (es : List Exchange) (h : ∀ b ∈ u.stream, b.okOf = none) {i : Nat}
    {o : Outcome} (ho : (nbSendAll 0 u es)[i]? = some o) : Honest i o ↔ Conclusive o := by
  have hu : u.Fresh 0 := by
    intro b hb k hk
    rw [h b hb] at hk
    cases hk
  simpa using honest_iff_conclusive_of_fresh es hu ho

/-- The modem answers every command with `OK` alone; how much arrives before each read varies. -/
def okExchange (newArrivals cfgArrivals conArrivals atArrivals pubArrivals : Nat) : Exchange :=
  { discon := ⟨[], true⟩, new := ⟨[], true⟩, cfg := ⟨[], true⟩, con := ⟨[], true⟩,
    at_ := ⟨[], true⟩, pub := ⟨[], true⟩, newArrivals, cfgArrivals, conArrivals, atArrivals,
    pubArrivals }

/-- The line before the first call. -/
def quietUart : Uart := { rx := [], coming := [], flag := false }

/-- Every answer arrives in time: the call returns 0, and its publish was acknowledged. -/
theorem publish_honest_in_time : ∃ o, (nbSendAll 0 quietUart [okExchange 8 4 4 4 4])[0]? = some o ∧
    o.ret = 0 ∧ Honest 0 o := by
  refine ⟨_, rfl, by decide, ?_⟩
  refine (publish_honest_iff [okExchange 8 4 4 4 4] (u := quietUart)
    (by simp [Uart.stream, quietUart]) rfl).mpr fun u hu => .inl ?_
  cases hu
  decide

/-- The answer to `AT` comes after its read, and that to `AT+CMQPUB` after the last: the `OK` of
`AT` is taken for that of the publish. -/
theorem publish_not_honest :
    ∃ o u, (nbSendAll 0 quietUart [okExchange 8 4 4 0 4])[0]? = some o ∧ o.ret = 0 ∧
      o.last = some u ∧ text (u.rx.take 60) = okText ∧ ¬ Accepted 0 (u.rx.take 60) := by
  refine ⟨_, _, rfl, by decide, rfl, by decide, ?_⟩
  unfold Accepted
  decide

end SortingLine.Nb
