/-
The process of the indexer together with what it has on disk.

`Worker.lean` follows the variables that the process shares with its subscription, block
after block, and `CrashRecovery.lean` the collections, for which a round is one step up to
the head that it began with. Here a step is a signal, what the process does on it to the
collections, and the crash in the middle of it, if there is one; whoever crashes is
started again from the file. `sessions_indexing` joins the two: as long as
`latestBlockNumber` is, whenever a round of the worker is over, still the end of the
round, what is on disk is at any time what a run of `indexing` leaves, made by the same
operations. The other rounds are the subject of `processed_once_iff`.

The queries of one round are answered from one state of the chain, as they are in
`indexing`.
-/
import Eco2.CrashRecovery

set_option autoImplicit false

namespace Eco2.Indexer

variable {AccountId Hash : Type} (codec : Codec AccountId Hash)
  (chain : ℕ → List (Record AccountId Hash))

/-! ## The machine -/

/-- The process, what the node answers in its round, and the directory `./.data`. -/
structure Session where
  process : Process
  api : Api
  data : Data

/-- A signal, what the node answers in the next round, and the number of operations after
which the process crashes on the signal, if it does. -/
structure Occasion where
  signal : Signal
  api : Api
  crash : Option ℕ

/-- What the process does to its data on a signal. -/
def Session.work (s : Session) (signal : Signal) : Handler Unit :=
  match signal, s.process.phase with
  | .blockProcessed, .range _ i _ => processEventsAtBlockNumber codec s.api chain i
  | .rangeProcessed, .returned .main to_ => saveLastBlockNumber to_
  | .rangeProcessed, .returned .startWorker _ => saveLastBlockNumber s.process.latestBlockNumber
  | _, _ => pure ()

/-- The first process with the answers of its node, and no data. -/
def Session.first (api : Api) : Session := ⟨started 0, api, .empty⟩

/-- The process over its starts, with the operations on each signal. -/
def sessions : Machine Session Occasion (List Operation) where
  step s o :=
    let program := s.work codec chain o.signal
    let api := if s.process.phase.range_end = none then o.api else s.api
    match o.crash with
    | none => (program.labels s.data, ⟨s.process.step o.signal, api, program.exec s.data⟩)
    | some k =>
      let data := program.interrupt k s.data
      ((program.labels s.data).take k, ⟨started data.lastBlockNumberFile, o.api, data⟩)

/-- The end of a round of the worker that is over. -/
def Phase.round_over : Phase → Option ℕ
  | .returned .startWorker to_ => some to_
  | _ => none

/-- No head is above `n`, the one that `main` catches up with is not behind the block it
has read, and `latestBlockNumber` still is the end of a round of the worker that is
over. -/
def Signal.Timely (n : ℕ) (p : Process) : Signal → Prop
  | .head number => p.lastBlockNumber ≤ number ∧ number ≤ n
  | .finalizedHead number => number ≤ n
  | .rangeProcessed => ∀ to_ ∈ p.phase.round_over, p.latestBlockNumber = to_
  | .blockProcessed | .timeout | .rejected => True

instance (n : ℕ) (p : Process) : DecidablePred (Signal.Timely n p)
  | .head number => inferInstanceAs (Decidable (p.lastBlockNumber ≤ number ∧ number ≤ n))
  | .finalizedHead number => inferInstanceAs (Decidable (number ≤ n))
  | .rangeProcessed =>
    inferInstanceAs (Decidable (∀ to_ ∈ p.phase.round_over, p.latestBlockNumber = to_))
  | .blockProcessed | .timeout | .rejected => isTrue trivial

def Timely (n : ℕ) (t : Transition Session Occasion (List Operation)) : Prop :=
  t.input.signal.Timely n t.pre.process

instance (n : ℕ) : DecidablePred (Timely n) :=
  fun t => inferInstanceAs (Decidable (t.input.signal.Timely n t.pre.process))

/-- Nothing crashes, and the node rejects no request. -/
def Uneventful (t : Transition Session Occasion (List Operation)) : Prop :=
  t.input.crash = none ∧ t.input.signal ≠ .rejected

/-! ## Parts of a round -/

section Parts

variable (api : Api)

/-- The blocks from `first + 1` to `last`. -/
def reading (first last : ℕ) : Handler Unit :=
  (feed chain first last).forM (process_entry codec api)

/-- What a round does next that has read up to block `i`. -/
def next_part (i last : ℕ) : Handler Unit :=
  if i < last then reading codec chain api i (i + 1) else saveLastBlockNumber last

variable {codec chain} {first i last : ℕ} {data : Data}

theorem reading_result : (reading codec chain api first last).result data = .ok () :=
  result_entries codec api _ data

theorem reading_self : reading codec chain api first first = pure () := by
  unfold reading feed
  rw [blocks_eq_nil (Nat.le_refl first)]
  rfl

theorem reading_bind (hfirst : first ≤ i) (hi : i ≤ last) :
    (reading codec chain api first i >>= fun _ => reading codec chain api i last)
      = reading codec chain api first last := by
  unfold reading
  rw [← feed_append chain hfirst hi]
  exact List.forM_append.symm

theorem processEventsAtBlockNumber_eq :
    processEventsAtBlockNumber codec api chain (i + 1) = reading codec chain api i (i + 1) := by
  have hrange := processEventsInRange_eq codec api chain i (i + 1)
  unfold processEventsInRange at hrange
  rw [Nat.add_sub_cancel_left, List.range'_one] at hrange
  refine Eq.trans ?_ hrange
  change _ = (processEventsAtBlockNumber codec api chain (i + 1) >>= fun _ => pure ())
  exact (bind_pure _).symm

theorem reading_file :
    ((reading codec chain api first last).exec data).lastBlockNumberFile
      = data.lastBlockNumberFile := by
  change ((reading codec chain api first last).exec data).index.lastBlockNumberFile = _
  unfold reading
  rw [forM_index, read_file]
  rfl

/-- A round, from any of its blocks on. -/
theorem catch_up_split (hfirst : first ≤ i) (hi : i ≤ last) :
    catch_up codec api chain first last
      = reading codec chain api first i >>= fun _ => catch_up codec api chain i last := by
  rw [catch_up_eq, catch_up_eq, ← bind_assoc]
  exact congrArg (· >>= fun _ => saveLastBlockNumber last) (reading_bind api hfirst hi).symm

theorem catch_up_self : catch_up codec api chain last last = saveLastBlockNumber last := by
  rw [catch_up_eq]
  change (reading codec chain api last last >>= _) = _
  rw [reading_self]
  rfl

theorem next_part_result : (next_part codec chain api i last).result data = .ok () := by
  unfold next_part
  by_cases hlt : i < last
  · rw [if_pos hlt, reading_result]
  · rw [if_neg hlt]
    rfl

theorem next_part_bind (hi : i ≤ last) :
    ∃ rest, catch_up codec api chain i last
      = next_part codec chain api i last >>= rest := by
  unfold next_part
  by_cases hlt : i < last
  · rw [if_pos hlt]
    exact ⟨_, catch_up_split api (Nat.le_succ i) hlt⟩
  · rw [if_neg hlt, Nat.le_antisymm hi (Nat.le_of_not_lt hlt), catch_up_self]
    exact ⟨pure, (bind_pure _).symm⟩

/-- A round that is cut `k` operations into what it does after block `i`. -/
theorem round_cut {p : Handler Unit} {rest : Unit → Handler Unit}
    (hfirst : data.lastBlockNumberFile ≤ i) (hi : i ≤ last)
    (hsplit : catch_up codec api chain i last = p >>= rest) (hok : ∀ data, p.result data = .ok ())
    (k : ℕ) :
    ∃ crash, ((indexing codec chain).fire data ⟨last, api, some crash⟩).output
        = (reading codec chain api data.lastBlockNumberFile i).labels data
          ++ (p.labels ((reading codec chain api data.lastBlockNumberFile i).exec data)).take k
      ∧ ((indexing codec chain).fire data ⟨last, api, some crash⟩).post
        = p.interrupt k ((reading codec chain api data.lastBlockNumberFile i).exec data) := by
  set done := reading codec chain api data.lastBlockNumberFile i with hdone
  refine ⟨(done.labels data).length + min k (p.labels (done.exec data)).length, ?_, ?_⟩
  · change ((catch_up codec api chain data.lastBlockNumberFile last).labels data).take _ = _
    rw [catch_up_split api hfirst hi, ← hdone,
      Program.labels_bind _ data (reading_result api), List.take_length_add_append, hsplit,
      Program.labels_bind _ _ (hok _), List.take_append_of_le_length (Nat.min_le_right _ _),
      ← List.take_eq_take_min]
  · change (catch_up codec api chain data.lastBlockNumberFile last).interrupt _ data = _
    rw [catch_up_split api hfirst hi, ← hdone,
      Program.interrupt_bind_of_ge _ data (reading_result api), hsplit,
      Program.interrupt_bind_of_le _ _ (Nat.min_le_right _ _), Program.interrupt_min]

variable (codec chain) in
/-- A round that is over. -/
theorem round_whole (hfirst : data.lastBlockNumberFile ≤ last) :
    ((indexing codec chain).fire data ⟨last, api, none⟩).output
        = (reading codec chain api data.lastBlockNumberFile last).labels data
          ++ [.saveLastBlockNumber]
      ∧ ((indexing codec chain).fire data ⟨last, api, none⟩).post
        = (saveLastBlockNumber last).exec
          ((reading codec chain api data.lastBlockNumberFile last).exec data) := by
  refine ⟨catch_up_labels api data.lastBlockNumberFile last data, ?_⟩
  change (catch_up codec api chain data.lastBlockNumberFile last).exec data = _
  rw [catch_up_split api hfirst (Nat.le_refl last), catch_up_self,
    Program.exec_bind _ data (reading_result api)]

end Parts

/-! ## One step -/

/-- The session is in a round, which began with `data`, has read up to block `i`, and has
made the operations `ops`. -/
structure InRound (n : ℕ) (data : Data) (ops : List Operation) (s : Session) (caller : Caller)
    (i to_ : ℕ) : Prop where
  phase : s.process.phase = (s.process.enter_range caller (i + 1) to_).phase
  first_le : data.lastBlockNumberFile ≤ i
  le_end : i ≤ to_
  end_le : to_ ≤ n
  read : s.data = (reading codec chain s.api data.lastBlockNumberFile i).exec data
  operations : ops = (reading codec chain s.api data.lastBlockNumberFile i).labels data

/-- Where the session is, if `data` are those at the end of the last round and `ops` the
operations since. -/
inductive Progress (n : ℕ) (data : Data) (ops : List Operation) (s : Session) : Prop
  | between (hphase : s.process.phase.range_end = none) (hdata : s.data = data) (hops : ops = [])
  | round (caller : Caller) (i to_ : ℕ) (h : InRound codec chain n data ops s caller i to_)

/-- The session stands where a run of `indexing` with the heads up to `n` has led to
`data`, and has made the operations `ops` since. -/
structure Stands (n : ℕ) (data : Data) (ops : List Operation) (s : Session) : Prop where
  file : s.process.lastBlockNumber = data.lastBlockNumberFile
  latest_le : s.process.latestBlockNumber ≤ n
  progress : Progress codec chain n data ops s

/-- A step of the session goes on with the round, or it ends it. -/
inductive Continues (n : ℕ) (data : Data) (ops : List Operation)
    (t : Transition Session Occasion (List Operation)) : Prop
  | goes_on (h : Stands codec chain n data (ops ++ t.output) t.post)
  | ends (round : Round) (hup : UpTo n ((indexing codec chain).fire data round))
      (hops : ((indexing codec chain).fire data round).output = ops ++ t.output)
      (hwhole : Uneventful t → round.crash = none)
      (h : Stands codec chain n ((indexing codec chain).fire data round).post [] t.post)

section Steps

variable {codec chain} {n : ℕ} {data now : Data} {ops : List Operation} {s : Session} {p : Process}
  {api : Api} {signal : Signal}

/-- A round begins. -/
theorem stands_enter_range {caller : Caller} {to_ : ℕ}
    (hfile : p.lastBlockNumber = data.lastBlockNumberFile) (hlatest : p.latestBlockNumber ≤ n)
    (hto : p.lastBlockNumber ≤ to_) (hn : to_ ≤ n) :
    Stands codec chain n data []
      ⟨p.enter_range caller (p.lastBlockNumber + 1) to_, api, data⟩ where
  file := hfile
  latest_le := hlatest
  progress := by
    refine .round caller p.lastBlockNumber to_ ⟨rfl, Nat.le_of_eq hfile.symm, hto, hn, ?_, ?_⟩
    · rw [hfile, reading_self]
      rfl
    · rw [hfile, reading_self]
      rfl

theorem stands_between (hfile : p.lastBlockNumber = data.lastBlockNumberFile)
    (hlatest : p.latestBlockNumber ≤ n) (hphase : p.phase.range_end = none) :
    Stands codec chain n data [] ⟨p, api, data⟩ :=
  ⟨hfile, hlatest, .between hphase rfl rfl⟩

theorem stands_loop (hfile : p.lastBlockNumber = data.lastBlockNumberFile)
    (hlatest : p.latestBlockNumber ≤ n) : Stands codec chain n data [] ⟨p.loop, api, data⟩ := by
  unfold Process.loop
  by_cases hbehind : p.lastBlockNumber < p.latestBlockNumber
  · rw [if_pos hbehind]
    exact stands_enter_range hfile hlatest (Nat.le_of_lt hbehind) hlatest
  · rw [if_neg hbehind]
    exact stands_between hfile hlatest rfl

/-- Between two rounds the process does nothing to its data. -/
theorem work_between (hphase : s.process.phase.range_end = none) :
    s.work codec chain signal = pure () := by
  unfold Session.work
  cases hp : s.process.phase with
  | range caller i to_ =>
    rw [hp] at hphase
    cases hphase
  | returned caller to_ =>
    rw [hp] at hphase
    cases hphase
  | _ => cases signal <;> rfl

theorem interrupt_pure (k : ℕ) : (pure () : Handler Unit).interrupt k data = data := by
  cases k <;> rfl

/-- What a signal does to the process between two rounds. -/
theorem stands_step (hfile : p.lastBlockNumber = data.lastBlockNumberFile)
    (hlatest : p.latestBlockNumber ≤ n) (hphase : p.phase.range_end = none)
    (ht : signal.Timely n p) : Stands codec chain n data [] ⟨p.step signal, api, data⟩ := by
  have hsame : Stands codec chain n data [] ⟨p, api, data⟩ :=
    stands_between hfile hlatest hphase
  cases signal with
  | head number =>
    unfold Process.step
    cases hp : p.phase with
    | starting => exact stands_enter_range hfile hlatest ht.1 ht.2
    | _ => exact hsame
  | finalizedHead number =>
    change Stands codec chain n data []
      ⟨if p.phase.subscribed then { p with latestBlockNumber := number } else p, _, data⟩
    by_cases hsubscribed : p.phase.subscribed = true
    · rw [if_pos hsubscribed]
      exact stands_between hfile ht hphase
    · rw [if_neg hsubscribed]
      exact hsame
  | timeout =>
    unfold Process.step
    cases hp : p.phase with
    | sleeping => exact stands_loop hfile hlatest
    | _ => exact hsame
  | rejected =>
    unfold Process.step
    cases hp : p.phase with
    | starting => exact stands_between hfile hlatest rfl
    | range caller i to_ => exact stands_between hfile hlatest rfl
    | _ => exact hsame
  | blockProcessed =>
    unfold Process.step
    cases hp : p.phase with
    | range caller i to_ =>
      rw [hp] at hphase
      cases hphase
    | _ => exact hsame
  | rangeProcessed =>
    unfold Process.step
    cases hp : p.phase with
    | returned caller to_ =>
      rw [hp] at hphase
      cases hphase
    | _ => exact hsame

/-- **Between two rounds**, a signal may begin one, and a crash loses nothing. -/
theorem continues_between {o : Occasion} (hfile : p.lastBlockNumber = data.lastBlockNumberFile)
    (hlatest : p.latestBlockNumber ≤ n) (hphase : p.phase.range_end = none)
    (ht : Timely n ((sessions codec chain).fire ⟨p, api, data⟩ o)) :
    Continues codec chain n data [] ((sessions codec chain).fire ⟨p, api, data⟩ o) := by
  obtain ⟨signal, answers, crash⟩ := o
  have hwork : Session.work codec chain ⟨p, api, data⟩ signal = pure () := work_between hphase
  refine .goes_on ?_
  cases crash with
  | some k =>
    change Stands codec chain n data (((Session.work codec chain ⟨p, api, data⟩ signal).labels
        data).take k) ⟨started _, answers, _⟩
    rw [hwork, interrupt_pure, show (pure () : Handler Unit).labels data = [] from rfl,
      List.take_nil]
    exact stands_between rfl (Nat.zero_le n) rfl
  | none =>
    change Stands codec chain n data ((Session.work codec chain ⟨p, api, data⟩ signal).labels data)
      ⟨p.step signal, _, _⟩
    rw [hwork]
    exact stands_step hfile hlatest hphase ht

section InRound

variable {caller : Caller} {i to_ : ℕ}

/-- In a round a head may have been noticed, and otherwise nothing has happened. -/
theorem InRound.stands (h : InRound codec chain n data ops ⟨p, api, now⟩ caller i to_)
    (hfile : p.lastBlockNumber = data.lastBlockNumberFile) {latest : ℕ} (hlatest : latest ≤ n) :
    Stands codec chain n data (ops ++ [])
      ⟨{ p with latestBlockNumber := latest }, api, now⟩ := by
  rw [List.append_nil]
  exact ⟨hfile, hlatest, .round caller i to_
    ⟨h.phase, h.first_le, h.le_end, h.end_le, h.read, h.operations⟩⟩

/-- A round that ends here is one that is cut. -/
theorem InRound.cut (h : InRound codec chain n data ops s caller i to_) :
    ∃ crash, UpTo n ((indexing codec chain).fire data ⟨to_, s.api, some crash⟩)
      ∧ ((indexing codec chain).fire data ⟨to_, s.api, some crash⟩).output = ops
      ∧ ((indexing codec chain).fire data ⟨to_, s.api, some crash⟩).post = s.data := by
  obtain ⟨crash, houtput, hpost⟩ := round_cut s.api h.first_le h.le_end
    (pure_bind () fun _ => catch_up codec s.api chain i to_).symm (fun _ => rfl) 0
  rw [← h.operations, List.take_zero, List.append_nil] at houtput
  rw [Program.interrupt_zero, ← h.read] at hpost
  exact ⟨crash, ⟨Nat.le_trans h.first_le h.le_end, h.end_le⟩, houtput, hpost⟩

/-- What a signal does to the data in a round: nothing, or what comes next. -/
theorem InRound.work (h : InRound codec chain n data ops s caller i to_)
    (ht : signal.Timely n s.process) :
    s.work codec chain signal = pure ()
      ∨ s.work codec chain signal = next_part codec chain s.api i to_ := by
  unfold next_part Session.work
  by_cases hlt : i < to_
  · have hrange : s.process.phase = .range caller (i + 1) to_ := h.phase.trans (if_pos hlt)
    rw [if_pos hlt, hrange, ← processEventsAtBlockNumber_eq]
    cases signal with
    | blockProcessed => exact .inr rfl
    | _ => exact .inl rfl
  · have hreturned : s.process.phase = .returned caller to_ := h.phase.trans (if_neg hlt)
    rw [if_neg hlt, hreturned]
    cases signal with
    | rangeProcessed =>
      cases caller with
      | main => exact .inr rfl
      | startWorker =>
        have hsettled : s.process.latestBlockNumber = to_ :=
          ht to_ (congrArg Phase.round_over hreturned)
        exact .inr (congrArg saveLastBlockNumber hsettled)
    | _ => exact .inl rfl

/-- A crash in a round cuts it. -/
theorem continues_crash (h : InRound codec chain n data ops s caller i to_) {answers : Api} {k : ℕ}
    (ht : signal.Timely n s.process) :
    Continues codec chain n data ops
      ((sessions codec chain).fire s ⟨signal, answers, some k⟩) := by
  have hcut : ∃ crash, ((indexing codec chain).fire data ⟨to_, s.api, some crash⟩).output
        = ops ++ ((s.work codec chain signal).labels s.data).take k
      ∧ ((indexing codec chain).fire data ⟨to_, s.api, some crash⟩).post
        = (s.work codec chain signal).interrupt k s.data := by
    rw [h.operations, h.read]
    obtain hidle | hnext := h.work ht
    · rw [hidle]
      exact round_cut s.api h.first_le h.le_end
        (pure_bind () fun _ => catch_up codec s.api chain i to_).symm (fun _ => rfl) k
    · rw [hnext]
      obtain ⟨rest, hsplit⟩ : ∃ rest, catch_up codec s.api chain i to_
          = next_part codec chain s.api i to_ >>= rest := next_part_bind s.api h.le_end
      exact round_cut s.api h.first_le h.le_end hsplit (fun _ => next_part_result s.api) k
  obtain ⟨crash, houtput, hpost⟩ := hcut
  refine .ends ⟨to_, s.api, some crash⟩ ⟨Nat.le_trans h.first_le h.le_end, h.end_le⟩ houtput ?_ ?_
  · rintro ⟨hnone, -⟩
    cases hnone
  · rw [hpost]
    exact stands_between rfl (Nat.zero_le n) rfl

/-- A signal before the last block of a round. -/
theorem continues_range (h : InRound codec chain n data ops ⟨p, api, now⟩ caller i to_)
    (hfile : p.lastBlockNumber = data.lastBlockNumberFile) (hlatest : p.latestBlockNumber ≤ n)
    (hi : i < to_) {answers : Api} (ht : signal.Timely n p) :
    Continues codec chain n data ops
      ((sessions codec chain).fire ⟨p, api, now⟩ ⟨signal, answers, none⟩) := by
  obtain ⟨last, latest, file, phase, processed⟩ := p
  obtain rfl : phase = .range caller (i + 1) to_ := h.phase.trans (if_pos hi)
  cases signal with
  | blockProcessed =>
    have hread : now = (reading codec chain api data.lastBlockNumberFile i).exec data := h.read
    have hexec : (processEventsAtBlockNumber codec api chain (i + 1)).exec now
        = (reading codec chain api data.lastBlockNumberFile (i + 1)).exec data := by
      rw [processEventsAtBlockNumber_eq, ← reading_bind api h.first_le (Nat.le_succ i),
        Program.exec_bind _ data (reading_result api), ← hread]
    have hlabels : ops ++ (processEventsAtBlockNumber codec api chain (i + 1)).labels now
        = (reading codec chain api data.lastBlockNumberFile (i + 1)).labels data := by
      rw [processEventsAtBlockNumber_eq, ← reading_bind api h.first_le (Nat.le_succ i),
        Program.labels_bind _ data (reading_result api), ← hread, h.operations]
    exact .goes_on ⟨hfile, hlatest, .round caller (i + 1) to_
      ⟨rfl, Nat.le_succ_of_le h.first_le, hi, h.end_le, hexec, hlabels⟩⟩
  | finalizedHead number =>
    cases caller with
    -- `main` has not subscribed yet
    | main => exact .goes_on (h.stands hfile hlatest)
    | startWorker => exact .goes_on (h.stands hfile ht)
  | rejected =>
    obtain ⟨crash, hup, houtput, hpost⟩ := h.cut
    refine .ends ⟨to_, api, some crash⟩ hup (houtput.trans (List.append_nil ops).symm) ?_ ?_
    · rintro ⟨-, hnot⟩
      exact absurd rfl hnot
    · rw [hpost]
      refine stands_between (hfile.trans ?_) hlatest rfl
      rw [h.read, reading_file]
  | _ => exact .goes_on (h.stands hfile hlatest)

/-- A signal after the last block of a round. -/
theorem continues_returned (h : InRound codec chain n data ops ⟨p, api, now⟩ caller to_ to_)
    (hfile : p.lastBlockNumber = data.lastBlockNumberFile) (hlatest : p.latestBlockNumber ≤ n)
    {answers : Api} (ht : signal.Timely n p) :
    Continues codec chain n data ops
      ((sessions codec chain).fire ⟨p, api, now⟩ ⟨signal, answers, none⟩) := by
  obtain ⟨last, latest, file, phase, processed⟩ := p
  obtain rfl : phase = .returned caller to_ := h.phase.trans (if_neg (Nat.not_succ_le_self to_))
  cases signal with
  | rangeProcessed =>
    have hread : now = (reading codec chain api data.lastBlockNumberFile to_).exec data := h.read
    obtain ⟨houtput, hpost⟩ := round_whole codec chain api h.first_le
    rw [← h.operations] at houtput
    rw [← hread] at hpost
    cases caller with
    | main =>
      refine .ends ⟨to_, api, none⟩ ⟨h.first_le, h.end_le⟩ houtput (fun _ => rfl) ?_
      rw [hpost]
      exact stands_loop rfl hlatest
    | startWorker =>
      obtain rfl : latest = to_ := ht to_ rfl
      refine .ends ⟨latest, api, none⟩ ⟨h.first_le, h.end_le⟩ houtput (fun _ => rfl) ?_
      rw [hpost]
      exact stands_between rfl hlatest rfl
  | finalizedHead number =>
    cases caller with
    | main => exact .goes_on (h.stands hfile hlatest)
    | startWorker => exact .goes_on (h.stands hfile ht)
  | _ => exact .goes_on (h.stands hfile hlatest)

end InRound

/-- **One step.** -/
theorem Stands.step (h : Stands codec chain n data ops s) {o : Occasion}
    (ht : Timely n ((sessions codec chain).fire s o)) :
    Continues codec chain n data ops ((sessions codec chain).fire s o) := by
  obtain ⟨hfile, hlatest, hprogress⟩ := h
  obtain ⟨signal, answers, crash⟩ := o
  obtain ⟨p, api, now⟩ := s
  cases hprogress with
  | between hphase hdata hops =>
    obtain rfl : now = data := hdata
    subst hops
    exact continues_between hfile hlatest hphase ht
  | round caller i to_ h =>
    cases crash with
    | some k => exact continues_crash h ht
    | none =>
      by_cases hlt : i < to_
      · exact continues_range h hfile hlatest hlt ht
      · obtain rfl : i = to_ := Nat.le_antisymm h.le_end (Nat.le_of_not_lt hlt)
        exact continues_returned h hfile hlatest ht

end Steps

/-! ## Runs -/

section Runs

variable {codec chain} {n : ℕ} {api : Api}
  {tr : List (Transition Session Occasion (List Operation))} {s : Session}

/-- The operations of a run. -/
def operations {σ ι : Type} (tr : List (Transition σ ι (List Operation))) : List Operation :=
  tr.flatMap Transition.output

theorem operations_snoc {σ ι : Type} (tr : List (Transition σ ι (List Operation)))
    (t : Transition σ ι (List Operation)) :
    operations (tr ++ [t]) = operations tr ++ t.output := by
  unfold operations
  rw [List.flatMap_append, List.flatMap_singleton]

/-- The rounds behind a session, and where it stands after them. -/
theorem stands_of_run (hrun : (sessions codec chain).Run (Timely n) (.first api) tr s) :
    ∃ rounds data ops, (indexing codec chain).Run (UpTo n) .empty rounds data
      ∧ Stands codec chain n data ops s
      ∧ operations tr = operations rounds ++ ops
      ∧ ((∀ t ∈ tr, Uneventful t) → ∀ t ∈ rounds, t.input.crash = none) := by
  refine hrun.invariant (I := fun tr s => ∃ rounds data ops,
    (indexing codec chain).Run (UpTo n) .empty rounds data ∧ Stands codec chain n data ops s
      ∧ operations tr = operations rounds ++ ops
      ∧ ((∀ t ∈ tr, Uneventful t) → ∀ t ∈ rounds, t.input.crash = none)) ?_ ?_
  · exact ⟨[], .empty, [], .nil, stands_between rfl (Nat.zero_le n) rfl, rfl,
      fun _ _ ht => absurd ht List.not_mem_nil⟩
  · rintro tr s o - ⟨rounds, data, ops, hrounds, hstands, hops, hwhole⟩ ht
    cases hstands.step ht with
    | goes_on h =>
      refine ⟨rounds, data, _, hrounds, h, ?_, fun hall => hwhole fun t ht => hall t ?_⟩
      · rw [operations_snoc, hops, List.append_assoc]
      · exact List.mem_append_left _ ht
    | ends round hup houtput hcrash h =>
      refine ⟨_, _, [], hrounds.snoc round hup, h, ?_, fun hall => ?_⟩
      · rw [operations_snoc, operations_snoc, houtput, hops, List.append_nil, List.append_assoc]
      · rw [List.forall_mem_append, List.forall_mem_singleton] at hall ⊢
        exact ⟨hwhole hall.1, hcrash hall.2⟩

/-- **What the process does is what rounds do.** In a run of the process over its starts
in which every round of the worker that is over still ends at `latestBlockNumber`, what is
on disk is at any time what a run of `indexing` leaves, by the same operations in the same
order. Between two rounds, its rounds are whole if nothing has crashed and no request was
rejected. -/
theorem sessions_indexing (hrun : (sessions codec chain).Run (Timely n) (.first api) tr s) :
    ∃ rounds, (indexing codec chain).Run (UpTo n) .empty rounds s.data
      ∧ operations rounds = operations tr
      ∧ (s.process.phase.range_end = none → (∀ t ∈ tr, Uneventful t) →
        ∀ t ∈ rounds, t.input.crash = none) := by
  obtain ⟨rounds, data, ops, hrounds, hstands, hops, hwhole⟩ := stands_of_run hrun
  cases hstands.progress with
  | between hphase hdata hnone =>
    rw [hdata]
    subst hnone
    exact ⟨rounds, hrounds, by rw [hops, List.append_nil], fun _ => hwhole⟩
  | round caller i to_ h =>
    -- the round in progress counts as one that is cut here
    obtain ⟨crash, hup, houtput, hpost⟩ := h.cut
    have hcut := hrounds.snoc ⟨to_, s.api, some crash⟩ hup
    rw [hpost] at hcut
    refine ⟨_, hcut, ?_, fun hbetween => ?_⟩
    · rw [operations_snoc, houtput, hops]
    · rw [h.phase, range_end_enter_range] at hbetween
      cases hbetween

end Runs

/-- `main` catches up with head 1, head 2 arrives, and the worker looks the asset of the
deal in block 2 up and crashes. Started again, the process catches up with head 2. -/
def crash_in_round : List Occasion :=
  [⟨.head 1, no_proposals, none⟩, ⟨.blockProcessed, no_proposals, none⟩,
    ⟨.rangeProcessed, no_proposals, none⟩, ⟨.finalizedHead 2, no_proposals, none⟩,
    ⟨.timeout, no_proposals, none⟩, ⟨.blockProcessed, no_proposals, some 1⟩,
    ⟨.head 2, no_proposals, none⟩, ⟨.blockProcessed, no_proposals, none⟩,
    ⟨.rangeProcessed, no_proposals, none⟩]

theorem sessions_indexing_crash_in_round :
    ∃ rounds, (indexing decimal one_deal).Run (UpTo 2) .empty rounds
        ((sessions decimal one_deal).final (.first no_proposals) crash_in_round).data
      ∧ operations rounds
        = operations ((sessions decimal one_deal).trace (.first no_proposals) crash_in_round)
      ∧ (((sessions decimal one_deal).final (.first no_proposals)
          crash_in_round).process.phase.range_end = none →
        (∀ t ∈ (sessions decimal one_deal).trace (.first no_proposals) crash_in_round,
          Uneventful t) → ∀ t ∈ rounds, t.input.crash = none) :=
  sessions_indexing (Machine.run_trace _ _ (by decide))

/-- Its rounds are those of `crash_before_deal`. -/
example :
    operations ((sessions decimal one_deal).trace (.first no_proposals) crash_in_round)
      = operations ((indexing decimal one_deal).trace .empty crash_before_deal) := by
  decide

end Eco2.Indexer
