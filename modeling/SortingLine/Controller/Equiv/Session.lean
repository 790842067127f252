import SortingLine.Controller.Equiv.NbConn
import SortingLine.Controller.Session

/-!
# The MQTT session: its discipline

`flag` stands for a session: it is set exactly while a set-up was completed and no publish has
failed since (`connected_of_calls`, `failed_of_calls`).  From this and the shape of one call
(`call_cases`) follow the four rules of `session_discipline`.
-/

namespace SortingLine.Nb

variable {flag : Bool} {r : Answers} {tr : List (Bool × Answers)} {es es' : List LineEvent}

/-! ### One call -/

/-- A completed set-up. -/
def setUpEvents (r : Answers) : List LineEvent :=
  [.write .cmqdiscon, .write .cmqnew, .read .cmqnew r.cmqnew, .write .cmqalicfg,
    .read .cmqalicfg r.cmqalicfg, .write .cmqalicon, .read .cmqalicon r.cmqalicon]

/-- The publish of a call. -/
def publishEvents (r : Answers) : List LineEvent :=
  [.write .at_, .read .at_ r.at_, .write .cmqpub, .read .cmqpub r.cmqpub]

/-- The three replies of a set-up are accepted. -/
def SetUpOk (r : Answers) : Prop :=
  parseOk r.cmqnew = true ∧ parseOk r.cmqalicfg = true ∧ parseOk r.cmqalicon = true

instance : DecidablePred SetUpOk := fun _ => inferInstanceAs (Decidable (_ ∧ _ ∧ _))

/-- The commands of a set-up. -/
def isSetUp : Cmd → Bool
  | .cmqnew | .cmqalicfg | .cmqalicon => true
  | .cmqdiscon | .at_ | .cmqpub => false

/-- The event is the read of a publish that failed. -/
def Failed (e : LineEvent) : Prop := ∃ buf, e = .read .cmqpub buf ∧ parseOk buf = false

/-- The event is the read of a set-up step that failed. -/
def FailedSetUp (e : LineEvent) : Prop :=
  ∃ c buf, e = .read c buf ∧ isSetUp c = true ∧ parseOk buf = false

/-- The events `es` are a set-up up to the first read that failed. -/
def CutShort (r : Answers) (es : List LineEvent) : Prop :=
  (parseOk r.cmqnew = false ∧ es = (setUpEvents r).take 3) ∨
  (parseOk r.cmqnew = true ∧ parseOk r.cmqalicfg = false ∧ es = (setUpEvents r).take 5) ∨
  (parseOk r.cmqnew = true ∧ parseOk r.cmqalicfg = true ∧ parseOk r.cmqalicon = false ∧
    es = setUpEvents r)

theorem setUp_cases (r : Answers) : ((setUp r).2 = false ∧ CutShort r (setUp r).1) ∨
    ((setUp r).2 = true ∧ SetUpOk r ∧ (setUp r).1 = setUpEvents r) := by
  unfold CutShort SetUpOk
  by_cases h₁ : parseOk r.cmqnew = true
  · by_cases h₂ : parseOk r.cmqalicfg = true
    · by_cases h₃ : parseOk r.cmqalicon = true <;> simp [setUp, setUpEvents, h₁, h₂, h₃]
    · simp [setUp, setUpEvents, h₁, h₂]
  · simp [setUp, setUpEvents, h₁]

theorem sendVQ_eq (r : Answers) : (sendVQ r).events = publishEvents r ∧
    (sendVQ r).flag = parseOk r.cmqpub := by
  unfold sendVQ
  split_ifs with h
  · exact ⟨rfl, h.symm⟩
  · exact ⟨rfl, by simpa using h⟩

/-- **What a call does**: it fails to connect, connects and publishes, or publishes. -/
theorem call_cases (flag : Bool) (r : Answers) :
    (flag = false ∧ (call flag r).flag = false ∧ CutShort r (call flag r).events) ∨
    (flag = false ∧ SetUpOk r ∧ (call flag r).flag = parseOk r.cmqpub ∧
      (call flag r).events = setUpEvents r ++ publishEvents r) ∨
    (flag = true ∧ (call flag r).flag = parseOk r.cmqpub ∧
      (call flag r).events = publishEvents r) := by
  obtain ⟨hev, hflag⟩ := sendVQ_eq r
  cases flag with
  | true => exact .inr (.inr ⟨rfl, hflag, hev⟩)
  | false =>
    rcases setUp_cases r with ⟨h, hcut⟩ | ⟨h, hok, hes⟩
    · exact .inl ⟨rfl, by simp [call, h], by simpa [call, h] using hcut⟩
    · exact .inr (.inl ⟨rfl, hok, by simp [call, h, hflag], by simp [call, h, hes, hev]⟩)

/-! ### Events of a call -/

theorem not_failed_of_mem_setUpEvents {e : LineEvent} (h : e ∈ setUpEvents r) : ¬ Failed e := by
  rintro ⟨buf, rfl, -⟩
  simp [setUpEvents] at h

theorem CutShort.exists_append (h : CutShort r es) : ∃ rest, setUpEvents r = es ++ rest := by
  rcases h with ⟨-, rfl⟩ | ⟨-, -, rfl⟩ | ⟨-, -, -, rfl⟩
  · exact ⟨_, (List.take_append_drop 3 _).symm⟩
  · exact ⟨_, (List.take_append_drop 5 _).symm⟩
  · exact ⟨[], by simp⟩

theorem CutShort.mem_setUpEvents {e : LineEvent} (h : CutShort r es) (he : e ∈ es) :
    e ∈ setUpEvents r := by
  obtain ⟨rest, hrest⟩ := h.exists_append
  rw [hrest]
  exact List.mem_append_left _ he

/-- The event is the read that completes a set-up. -/
def Completes (e : LineEvent) : Prop := ∃ buf, e = .read .cmqalicon buf ∧ parseOk buf = true

theorem CutShort.not_completes (h : CutShort r es) : ∀ e ∈ es, ¬ Completes e := by
  rintro e he ⟨buf, rfl, hbuf⟩
  rcases h with ⟨-, rfl⟩ | ⟨-, -, rfl⟩ | ⟨-, -, hcon, rfl⟩
  · simp [setUpEvents] at he
  · simp [setUpEvents] at he
  · obtain rfl : buf = r.cmqalicon := by simpa [setUpEvents] using he
    rw [hcon] at hbuf
    cases hbuf

/-- A set-up that is cut short ends with the read that failed. -/
theorem CutShort.last (h : CutShort r es) :
    ∃ xs e, es = xs ++ [e] ∧ ∀ e' ∈ xs, ¬ FailedSetUp e' := by
  rcases h with ⟨-, rfl⟩ | ⟨h₁, -, rfl⟩ | ⟨h₁, h₂, -, rfl⟩
  · exact ⟨[_, _], _, rfl, by simp [FailedSetUp]⟩
  · exact ⟨[_, _, _, _], _, rfl, by simp [FailedSetUp, h₁]⟩
  · exact ⟨[_, _, _, _, _, _], _, rfl, by simp [FailedSetUp, h₁, h₂]⟩

/-- A call that publishes ends with the read of the reply. -/
theorem failed_iff_of_mem_publishEvents {e : LineEvent} (h : e ∈ publishEvents r) (hf : Failed e) :
    parseOk r.cmqpub = false := by
  obtain ⟨buf, rfl, hbuf⟩ := hf
  simp only [publishEvents, List.mem_cons, reduceCtorEq, LineEvent.read.injEq, true_and,
    List.not_mem_nil, or_false, false_or, false_and] at h
  rwa [← h]

/-! ### Splitting a list of events -/

/-- A piece that ends in an element which the last part does not have, is a piece of the first. -/
theorem exists_of_append_eq {α : Type*} {P : α → Prop} {xs ys zs ws : List α}
    (h : xs ++ ys = zs ++ ws) (hz : zs = [] ∨ ∃ z a, zs = z ++ [a] ∧ P a) (hys : ∀ a ∈ ys, ¬ P a) :
    ∃ t, xs = zs ++ t ∧ ws = t ++ ys := by
  rcases List.append_eq_append_iff.mp h with ⟨t, rfl, rfl⟩ | ⟨t, rfl, rfl⟩
  · rcases List.eq_nil_or_concat t with rfl | ⟨t, a, rfl⟩
    · exact ⟨[], by simp, rfl⟩
    · rcases hz with hz | ⟨z, b, hz, hb⟩
      · simp at hz
      · rw [List.concat_eq_append, ← List.append_assoc] at hz
        obtain ⟨-, hab⟩ := List.append_inj' hz rfl
        obtain rfl := List.singleton_inj.mp hab
        exact absurd hb (hys a (by simp))
  · exact ⟨t, rfl, rfl⟩

/-- An element of two lists in a row is in one of them. -/
theorem split_append {α : Type*} {xs ys zs ws : List α} {a : α} (h : xs ++ ys = zs ++ a :: ws) :
    (∃ t, xs = zs ++ a :: t) ∨ ∃ t, zs = xs ++ t ∧ ys = t ++ a :: ws := by
  rcases List.append_eq_append_iff.mp h with ⟨t, rfl, hys⟩ | ⟨t, rfl, hys⟩
  · exact .inr ⟨t, rfl, hys⟩
  · cases t with
    | nil => exact .inr ⟨[], by simp, hys.symm⟩
    | cons b t =>
      obtain ⟨rfl, -⟩ := List.cons_eq_cons.mp hys
      exact .inl ⟨t, rfl⟩

/-! ### What the flag stands for -/

/-- The list is empty or ends with a failed publish. -/
def EndsFailed (es : List LineEvent) : Prop := es = [] ∨ ∃ xs e, es = xs ++ [e] ∧ Failed e

/-- After every failed publish, and from power-on, a set-up was completed. -/
def Connected (es : List LineEvent) : Prop :=
  ∀ es₁ es₂, es = es₁ ++ es₂ → EndsFailed es₁ → ∃ r, SetUpOk r ∧ setUpEvents r <:+: es₂

/-- After every completed set-up a publish has failed. -/
def Disconnected (es : List LineEvent) : Prop :=
  ∀ es₁ buf es₂, es = es₁ ++ .read .cmqalicon buf :: es₂ → parseOk buf = true →
    ∃ e ∈ es₂, Failed e

theorem events_concat (x : Bool × Answers) :
    events (tr ++ [x]) = events tr ++ (call x.1 x.2).events := by
  simp [events]

/-- A piece of a run that ends with a failed publish, or nothing, and goes on without one. -/
theorem Connected.append (h : Connected es) (hno : ∀ e ∈ es', ¬ Failed e) :
    Connected (es ++ es') := by
  intro es₁ es₂ heq hends
  obtain ⟨t, ht, rfl⟩ := exists_of_append_eq heq hends hno
  obtain ⟨r, hr, hin⟩ := h es₁ t ht hends
  exact ⟨r, hr, hin.trans (List.infix_append' [] t es')⟩

/-- A completed set-up connects. -/
theorem connected_of_setUpEvents (es : List LineEvent) (hr : SetUpOk r)
    (hno : ∀ e ∈ es', ¬ Failed e) : Connected (es ++ (setUpEvents r ++ es')) := by
  intro es₁ es₂ heq hends
  obtain ⟨t, -, rfl⟩ := exists_of_append_eq heq hends fun e he => by
    rcases List.mem_append.mp he with he | he
    · exact not_failed_of_mem_setUpEvents he
    · exact hno e he
  exact ⟨r, hr, t, es', by simp⟩

/-- **The flag is set only in a session.** -/
theorem connected_of_calls (h : Calls tr flag) : flag = true → Connected (events tr) := by
  induction h with
  | start => intro h; cases h
  | @next tr flag flag' r _ ha ih =>
    obtain rfl := Option.some.inj ha
    intro hflag
    rw [events_concat]
    rcases call_cases flag r with ⟨-, hf, -⟩ | ⟨-, hok, hf, hes⟩ | ⟨rfl, hf, hes⟩
    · rw [hf] at hflag
      cases hflag
    · rw [hes]
      refine connected_of_setUpEvents _ hok fun e he hfail => ?_
      rw [hf, failed_iff_of_mem_publishEvents he hfail] at hflag
      cases hflag
    · rw [hes]
      refine (ih rfl).append fun e he hfail => ?_
      rw [hf, failed_iff_of_mem_publishEvents he hfail] at hflag
      cases hflag

/-- Events that complete no set-up leave a session closed. -/
theorem Disconnected.append (h : Disconnected es) (hno : ∀ e ∈ es', ¬ Completes e) :
    Disconnected (es ++ es') := by
  intro es₁ buf es₂ heq hbuf
  rw [List.append_cons] at heq
  obtain ⟨t, ht, rfl⟩ := exists_of_append_eq heq (.inr ⟨es₁, _, rfl, buf, rfl, hbuf⟩) hno
  rw [← List.append_cons] at ht
  obtain ⟨e, he, hfail⟩ := h es₁ buf t ht hbuf
  exact ⟨e, List.mem_append_left _ he, hfail⟩

/-- A failed publish closes the session. -/
theorem disconnected_concat {e : LineEvent} (he : Failed e) (es : List LineEvent) :
    Disconnected (es ++ [e]) := by
  intro es₁ buf es₂ heq hbuf
  rcases List.eq_nil_or_concat es₂ with rfl | ⟨t, e', rfl⟩
  · -- the publish is not the read that completed the set-up
    obtain ⟨-, hlast⟩ := List.append_inj' heq rfl
    obtain rfl := List.singleton_inj.mp hlast
    obtain ⟨_, hread, -⟩ := he
    cases hread
  · rw [List.concat_eq_append, ← List.cons_append, ← List.append_assoc] at heq
    obtain ⟨-, hlast⟩ := List.append_inj' heq rfl
    obtain rfl := List.singleton_inj.mp hlast
    exact ⟨e, by simp, he⟩

/-- **The flag is clear only outside a session.** -/
theorem disconnected_of_calls (h : Calls tr flag) : flag = false → Disconnected (events tr) := by
  induction h with
  | start =>
    intro _ es₁ buf es₂ heq
    simp [events] at heq
  | @next tr flag flag' r _ ha ih =>
    obtain rfl := Option.some.inj ha
    intro hflag
    rw [events_concat]
    have hpub (hf : parseOk r.cmqpub = false) (es : List LineEvent) :
        Disconnected (es ++ publishEvents r) := by
      have := disconnected_concat (e := .read .cmqpub r.cmqpub) ⟨_, rfl, hf⟩
        (es ++ [.write .at_, .read .at_ r.at_, .write .cmqpub])
      rwa [List.append_assoc] at this
    rcases call_cases flag r with ⟨rfl, -, hcut⟩ | ⟨-, -, hf, hes⟩ | ⟨rfl, hf, hes⟩
    · exact (ih rfl).append hcut.not_completes
    · rw [hes, ← List.append_assoc]
      exact hpub (hf ▸ hflag) _
    · rw [hes]
      exact hpub (hf ▸ hflag) _

/-! ### The four rules -/

/-- Before `AT+CMQPUB` a call publishes nothing. -/
theorem not_failed_before_publish {es₁ es₂ : List LineEvent}
    (h : publishEvents r = es₁ ++ .write .cmqpub :: es₂) : ∀ e ∈ es₁, ¬ Failed e := by
  have hlast : [.write .at_, .read .at_ r.at_, .write .cmqpub] ++ [.read .cmqpub r.cmqpub]
      = es₁ ++ .write .cmqpub :: es₂ := h
  rintro e he ⟨buf, rfl, -⟩
  rcases split_append hlast with ⟨t, ht⟩ | ⟨t, -, ht⟩
  · have : LineEvent.read .cmqpub buf ∈ es₁ ++ .write .cmqpub :: t := List.mem_append_left _ he
    simp [← ht] at this
  · have : LineEvent.write .cmqpub ∈ [LineEvent.read .cmqpub r.cmqpub] := by rw [ht]; simp
    simp at this

/-- Before a set-up command nothing is completed. -/
theorem not_completes_before_setUp {es₁ es₂ : List LineEvent} {c : Cmd}
    (h : setUpEvents r = es₁ ++ .write c :: es₂) : ∀ e ∈ es₁, ¬ Completes e := by
  have hlast : (setUpEvents r).take 6 ++ [.read .cmqalicon r.cmqalicon]
      = es₁ ++ .write c :: es₂ := h
  rintro e he ⟨buf, rfl, -⟩
  rcases split_append hlast with ⟨t, ht⟩ | ⟨t, -, ht⟩
  · have : LineEvent.read .cmqalicon buf ∈ es₁ ++ .write c :: t := List.mem_append_left _ he
    simp [← ht, setUpEvents] at this
  · have : LineEvent.write c ∈ [LineEvent.read .cmqalicon r.cmqalicon] := by rw [ht]; simp
    simp at this

/-- **Rule 1**: `AT+CMQPUB` is written only in a session. -/
theorem setUp_before_publish (h : Calls tr flag) {es₁ es₂ es₃ : List LineEvent}
    (heq : events tr = es₁ ++ es₂ ++ .write .cmqpub :: es₃) (hends : EndsFailed es₁) :
    ∃ r, SetUpOk r ∧ setUpEvents r <:+: es₂ := by
  induction h generalizing es₃ with
  | start => simp [events] at heq
  | @next tr flag flag' r hr _ ih =>
    rw [events_concat] at heq
    rcases split_append heq with ⟨t, ht⟩ | ⟨t, ht, hcall⟩
    · exact ih ht
    rcases call_cases flag r with ⟨-, -, hcut⟩ | ⟨-, hok, -, hes⟩ | ⟨rfl, -, hes⟩
    · -- a set-up that is cut short publishes nothing
      have := hcut.mem_setUpEvents (e := .write .cmqpub) (by rw [hcall]; simp)
      simp [setUpEvents] at this
    · rw [hes] at hcall
      rcases split_append hcall with ⟨u, hu⟩ | ⟨u, rfl, hu⟩
      · have : LineEvent.write .cmqpub ∈ setUpEvents r := by rw [hu]; simp
        simp [setUpEvents] at this
      · exact connected_of_setUpEvents _ hok (not_failed_before_publish hu) _ _ ht.symm hends
    · rw [hes] at hcall
      exact (connected_of_calls hr rfl).append (not_failed_before_publish hcall) _ _ ht.symm hends

/-- **Rule 4**: a set-up command is written again only after a failed publish. -/
theorem failed_before_setUp (h : Calls tr flag) {es₁ es₂ es₃ : List LineEvent} {buf : List UInt8}
    {c : Cmd} (heq : events tr = (es₁ ++ .read .cmqalicon buf :: es₂) ++ .write c :: es₃)
    (hbuf : parseOk buf = true) (hc : isSetUp c = true) : ∃ e ∈ es₂, Failed e := by
  induction h generalizing es₃ with
  | start => simp [events] at heq
  | @next tr flag flag' r hr _ ih =>
    rw [events_concat] at heq
    rcases split_append heq with ⟨t, ht⟩ | ⟨t, ht, hcall⟩
    · exact ih ht
    -- the call is made outside a session, and has completed nothing yet
    have hclosed (hflag : flag = false) {rest : List LineEvent}
        (hs : setUpEvents r = t ++ .write c :: rest) : ∃ e ∈ es₂, Failed e :=
      (disconnected_of_calls hr hflag).append (not_completes_before_setUp hs) es₁ buf es₂ ht.symm
        hbuf
    have hpub : LineEvent.write c ∉ publishEvents r := by
      cases c <;> simp [isSetUp] at hc <;> simp [publishEvents]
    rcases call_cases flag r with ⟨hflag, -, hcut⟩ | ⟨hflag, -, -, hes⟩ | ⟨-, -, hes⟩
    · obtain ⟨rest, hrest⟩ := hcut.exists_append
      rw [hcall] at hrest
      exact hclosed hflag (by simpa using hrest)
    · rw [hes] at hcall
      rcases split_append hcall with ⟨u, hu⟩ | ⟨u, -, hu⟩
      · exact hclosed hflag hu
      · exact absurd (by rw [hu]; simp) hpub
    · exact absurd (by rw [← hes, hcall]; simp) hpub

/-- **Rule 2**: the call after one whose publish failed makes the whole set-up, up to the first step
that fails, and publishes only if none does. -/
theorem setUp_after_failed (h : Calls tr flag) {tr₁ tr₂ : List (Bool × Answers)}
    {x y : Bool × Answers} (htr : tr = tr₁ ++ x :: y :: tr₂)
    (hfail : ∃ e ∈ (call x.1 x.2).events, Failed e) :
    CutShort y.2 (call y.1 y.2).events ∨
      (SetUpOk y.2 ∧ (call y.1 y.2).events = setUpEvents y.2 ++ publishEvents y.2) := by
  -- the flag that `x` leaves is the one that `y` finds
  have hrun : Run step false ((tr₁ ++ [x]) ++ ([y] ++ tr₂)) flag := by
    rw [htr] at h
    simpa [Calls] using h
  obtain ⟨flag₁, h₁, h₂⟩ := hrun.of_append
  have hx : (call x.1 x.2).flag = flag₁ := Option.some.inj h₁.of_concat.2
  obtain ⟨flag₂, hy, -⟩ := h₂.of_append
  have hy₁ : y.1 = flag₁ := (hy : Run step flag₁ ([] ++ [y]) flag₂).of_concat.1.of_nil
  obtain ⟨e, he, hfail⟩ := hfail
  have hflag : y.1 = false := by
    rw [hy₁, ← hx]
    rcases call_cases x.1 x.2 with ⟨-, hf, -⟩ | ⟨-, -, hf, hes⟩ | ⟨-, hf, hes⟩
    · exact hf
    · rw [hes, List.mem_append] at he
      rcases he with he | he
      · exact absurd hfail (not_failed_of_mem_setUpEvents he)
      · rw [hf, failed_iff_of_mem_publishEvents he hfail]
    · rw [hes] at he
      rw [hf, failed_iff_of_mem_publishEvents he hfail]
  rcases call_cases y.1 y.2 with ⟨-, -, hcut⟩ | ⟨-, hok, -, hes⟩ | ⟨ht, -⟩
  · exact .inl hcut
  · exact .inr ⟨hok, hes⟩
  · rw [hflag] at ht
    cases ht

/-- **Rule 3**: after a set-up step that failed a call does nothing more. -/
theorem nothing_after_failed (flag : Bool) (r : Answers) {es₁ es₂ : List LineEvent} {e : LineEvent}
    (heq : (call flag r).events = es₁ ++ e :: es₂) (he : FailedSetUp e) : es₂ = [] := by
  have hpub : ∀ e ∈ publishEvents r, ¬ FailedSetUp e := by
    simp [publishEvents, FailedSetUp, isSetUp]
  rcases call_cases flag r with ⟨-, -, hcut⟩ | ⟨-, hok, -, hes⟩ | ⟨-, -, hes⟩
  · obtain ⟨xs, e', hlast, hno⟩ := hcut.last
    rw [hlast] at heq
    rcases split_append heq with ⟨t, ht⟩ | ⟨t, -, ht⟩
    · exact absurd he (hno e (by rw [ht]; simp))
    · cases t with
      | nil => exact (List.cons_eq_cons.mp ht).2.symm
      | cons b t => simp at ht
  · have hmem : e ∈ setUpEvents r ++ publishEvents r := by rw [← hes, heq]; simp
    obtain ⟨h₁, h₂, h₃⟩ := hok
    rcases List.mem_append.mp hmem with hmem | hmem
    · obtain ⟨c, buf, rfl, hc, hbuf⟩ := he
      simp only [setUpEvents, List.mem_cons, reduceCtorEq, LineEvent.read.injEq, List.not_mem_nil,
        or_false, false_or] at hmem
      rcases hmem with ⟨-, rfl⟩ | ⟨-, rfl⟩ | ⟨-, rfl⟩ <;> simp_all
    · exact absurd he (hpub e hmem)
  · exact absurd he (hpub e (by rw [← hes, heq]; simp))

/-- **The discipline of the session**, in every sequence of calls from power-on and for all contents
of the reads. -/
theorem session_discipline (h : Calls tr flag) :
    (∀ es₁ es₂ es₃, events tr = es₁ ++ es₂ ++ .write .cmqpub :: es₃ → EndsFailed es₁ →
      ∃ r, SetUpOk r ∧ setUpEvents r <:+: es₂) ∧
    (∀ tr₁ x y tr₂, tr = tr₁ ++ x :: y :: tr₂ → (∃ e ∈ (call x.1 x.2).events, Failed e) →
      CutShort y.2 (call y.1 y.2).events ∨
        (SetUpOk y.2 ∧ (call y.1 y.2).events = setUpEvents y.2 ++ publishEvents y.2)) ∧
    (∀ x ∈ tr, ∀ es₁ e es₂, (call x.1 x.2).events = es₁ ++ e :: es₂ → FailedSetUp e → es₂ = []) ∧
    (∀ es₁ buf es₂ c es₃,
      events tr = (es₁ ++ .read .cmqalicon buf :: es₂) ++ .write c :: es₃ →
      parseOk buf = true → isSetUp c = true → ∃ e ∈ es₂, Failed e) :=
  ⟨fun _ _ _ => setUp_before_publish h, fun _ _ _ _ => setUp_after_failed h,
    fun x _ _ _ _ => nothing_after_failed x.1 x.2, fun _ _ _ _ _ => failed_before_setUp h⟩

/-! ### The modem -/

/-- What the reads of a call get from the UART. -/
def answers (c : Nat) (e : Exchange) (u : Uart) : Answers :=
  let new := (u.write e.discon.unmarked).command e.new e.newArrivals 40
  let cfg := new.2.command e.cfg e.cfgArrivals 40
  let con := cfg.2.command e.con e.conArrivals 40
  let u' := if u.flag then u else (connect e u).2
  { cmqnew := text new.1
    cmqalicfg := text cfg.1
    cmqalicon := text con.1
    at_ := text (u'.command e.at_ e.atArrivals 16).1
    cmqpub := text ((publish c e u').read 60).1 }

/-- The branch `flag == 0` is the set-up. -/
theorem connect_eq_setUp (c : Nat) (e : Exchange) {u : Uart} (h : u.flag = false) :
    (connect e u).1 = (setUp (answers c e u)).2 ∧ (connect e u).2.flag = (connect e u).1 := by
  obtain ⟨u₁, u₂, u₃, hconnect, hf₁, hf₂, hf₃⟩ : ∃ u₁ u₂ u₃ : Uart,
      (connect e u = if ¬ parseOk (answers c e u).cmqnew then (false, u₁)
        else if ¬ parseOk (answers c e u).cmqalicfg then (false, u₂)
        else if ¬ parseOk (answers c e u).cmqalicon then (false, u₃)
        else (true, { u₃ with flag := true })) ∧
      u₁.flag = u.flag ∧ u₂.flag = u.flag ∧ u₃.flag = u.flag := ⟨_, _, _, rfl, rfl, rfl, rfl⟩
  rw [hconnect]
  unfold setUp
  by_cases h₁ : parseOk (answers c e u).cmqnew = true
  · by_cases h₂ : parseOk (answers c e u).cmqalicfg = true
    · by_cases h₃ : parseOk (answers c e u).cmqalicon = true <;> simp [h₁, h₂, h₃, hf₃, h]
    · simp [h₁, h₂, hf₂, h]
  · simp [h₁, hf₁, h]

/-- **The calls of `nbSendVQ` are calls of the session.** -/
theorem nbSendVQ_eq_call (c : Nat) (e : Exchange) (u : Uart) :
    (nbSendVQ c e u).1.ret = (call u.flag (answers c e u)).ret ∧
    (nbSendVQ c e u).2.flag = (call u.flag (answers c e u)).flag := by
  obtain ⟨u₁, hu₁⟩ : ∃ u₁, (if u.flag then u else (connect e u).2) = u₁ := ⟨_, rfl⟩
  have hpub : (answers c e u).cmqpub = text ((publish c e u₁).read 60).1 := by
    rw [← hu₁]
    rfl
  have hsend : sendVQ (answers c e u) = ⟨publishEvents (answers c e u),
      parseOk (answers c e u).cmqpub, if parseOk (answers c e u).cmqpub then 0 else -1⟩ := by
    unfold sendVQ
    by_cases h : parseOk (answers c e u).cmqpub = true <;> simp [h, publishEvents]
  unfold nbSendVQ call
  cases hflag : u.flag with
  | true =>
    simp only [hflag, if_true] at hu₁
    subst hu₁
    by_cases h : parseOk (answers c e u).cmqpub = true <;> simp [hsend, h, ← hpub]
  | false =>
    obtain ⟨hok, hf⟩ := connect_eq_setUp c e hflag
    simp only [hflag, Bool.false_eq_true, if_false] at hu₁
    subst hu₁
    cases hc : (setUp (answers c e u)).2 with
    | false =>
      rw [hc] at hok
      rw [hok] at hf
      simp [hok, hc, hf]
    | true =>
      rw [hc] at hok
      by_cases h : parseOk (answers c e u).cmqpub = true <;> simp [hok, hc, hsend, h, ← hpub]

/-! ### Runs -/

/-- Every reply is `OK`. -/
def okAnswers : Answers := ⟨okText, okText, okText, okText, okText⟩

/-- Every reply is `OK` but that to the publish. -/
def pubErrorAnswers : Answers := { okAnswers with cmqpub := errorText }

/-- A publish that succeeds, one that fails, and one after that: the third call makes the set-up
again. -/
theorem session_discipline_three_calls :
    Calls [(false, okAnswers), (true, pubErrorAnswers), (false, okAnswers)] true ∧
    SetUpOk okAnswers ∧
    (call false okAnswers).events = setUpEvents okAnswers ++ publishEvents okAnswers := by
  have h : Calls [(false, okAnswers), (true, pubErrorAnswers), (false, okAnswers)] true := by
    have h₁ : Run step false ([] ++ [(false, okAnswers)]) true := Run.start.next rfl
    have h₂ : Run step false _ false := h₁.next (a := pubErrorAnswers) rfl
    exact h₂.next (a := okAnswers) rfl
  refine ⟨h, ?_⟩
  rcases (session_discipline h).2.1 [(false, okAnswers)] (true, pubErrorAnswers) (false, okAnswers)
    [] rfl ⟨.read .cmqpub errorText, by decide, errorText, rfl, by decide⟩ with hcut | hok
  · rcases hcut with ⟨h, -⟩ | ⟨-, h, -⟩ | ⟨-, -, h, -⟩ <;> exact absurd h (by decide)
  · exact hok

end SortingLine.Nb
