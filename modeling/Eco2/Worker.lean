/-
`example/events-listener.ts`: the indexer's process, from `main` catching up with the
finalized head to its worker and its subscription to finalized heads.

The two share `lastBlockNumber`, up to which the process has indexed, and
`latestBlockNumber`, up to which blocks are finalized. The worker passes the latter to
`processEventsInRange` as the end of a round, awaits it, and then sets
`lastBlockNumber = latestBlockNumber`, which it reads again. A head that has arrived in
between has moved it past the end of the round, and the blocks in between are counted
as processed. `processed_once_iff` says that this is the only way to lose one.

The awaits within one block (its hash, its events, the writes of their handlers) are one
step here: a notification that arrives at any of them arrives before the block is done.
-/
import Eco2.Machine

set_option autoImplicit false

namespace Eco2.Indexer

/-! ## The process -/

/-- Who awaits `processEventsInRange`. -/
inductive Caller
  | main
  | startWorker
  deriving DecidableEq

/-- What the process awaits. -/
inductive Phase
  /-- The number of the finalized head, in `main`. -/
  | starting
  /-- Block `i` of `processEventsInRange(…, to_)`. -/
  | range (caller : Caller) (i to_ : ℕ)
  /-- `processEventsInRange(…, to_)`, which has returned. -/
  | returned (caller : Caller) (to_ : ℕ)
  /-- `sleep(1000)`, between two rounds of the worker. -/
  | sleeping
  /-- Nothing any more: a request was rejected, and whoever awaited it with it. -/
  | failed
  deriving DecidableEq

/-- Who awaits a range, and its end. -/
def Phase.range_end : Phase → Option (Caller × ℕ)
  | .range caller _ to_ | .returned caller to_ => some (caller, to_)
  | _ => none

/-- `listenBlocks` is called when `main` has caught up. -/
def Phase.subscribed : Phase → Bool
  | .starting | .range .main _ _ | .returned .main _ => false
  | _ => true

/-- The shared variables, the file, and the blocks processed since the start. -/
structure Process where
  lastBlockNumber : ℕ
  latestBlockNumber : ℕ
  lastBlockNumberFile : ℕ
  phase : Phase
  processed : List ℕ
  deriving DecidableEq

/-- What wakes the process: a notification, or the end of what it awaits. -/
inductive Signal
  | head (number : ℕ)
  | finalizedHead (number : ℕ)
  | blockProcessed
  | rangeProcessed
  | timeout
  | rejected
  deriving DecidableEq

namespace Process

variable (p : Process)

/-- The head of the loop of `processEventsInRange`. -/
def enter_range (caller : Caller) (i to_ : ℕ) : Process :=
  { p with phase := if i ≤ to_ then .range caller i to_ else .returned caller to_ }

/-- The head of the loop of `startWorker`. -/
def loop : Process :=
  if p.lastBlockNumber < p.latestBlockNumber then
    p.enter_range .startWorker (p.lastBlockNumber + 1) p.latestBlockNumber
  else
    { p with phase := .sleeping }

/-- `lastBlockNumber = number`, and `saveLastBlockNumber`. -/
def save (number : ℕ) : Process :=
  { p with lastBlockNumber := number, lastBlockNumberFile := number }

/-- One step of the process. A signal that nothing awaits does nothing; a notification
is delivered whatever the worker awaits. -/
def step : Signal → Process
  | .head number =>
    match p.phase with
    | .starting => p.enter_range .main (p.lastBlockNumber + 1) number
    | _ => p
  | .finalizedHead number =>
    if p.phase.subscribed then { p with latestBlockNumber := number } else p
  | .blockProcessed =>
    match p.phase with
    | .range caller i to_ =>
      { p with processed := p.processed ++ [i] }.enter_range caller (i + 1) to_
    | _ => p
  | .rangeProcessed =>
    match p.phase with
    | .returned .main to_ => (p.save to_).loop
    -- the end of the round is not looked at: the shared variable is read again
    | .returned .startWorker _ => { p.save p.latestBlockNumber with phase := .sleeping }
    | _ => p
  | .timeout =>
    match p.phase with
    | .sleeping => p.loop
    | _ => p
  | .rejected =>
    match p.phase with
    | .starting | .range _ _ _ => { p with phase := .failed }
    | _ => p

end Process

/-- The process, and the node that signals to it. -/
def indexer : Machine Process Signal Unit where
  step p signal := ((), p.step signal)

/-- `main`, which has read `saved` from the file. -/
def started (saved : ℕ) : Process :=
  { lastBlockNumber := saved, latestBlockNumber := 0, lastBlockNumberFile := saved,
    phase := .starting, processed := [] }

/-- Finality does not go back: the numbers of the notifications do not decrease. -/
def Signal.Advances (latest : ℕ) : Signal → Prop
  | .finalizedHead number => latest ≤ number
  | _ => True

instance (latest : ℕ) : DecidablePred (Signal.Advances latest)
  | .finalizedHead number => inferInstanceAs (Decidable (latest ≤ number))
  | .head _ | .blockProcessed | .rangeProcessed | .timeout | .rejected => isTrue trivial

def HeadsAdvance (t : Transition Process Signal Unit) : Prop :=
  t.input.Advances t.pre.latestBlockNumber

instance : DecidablePred HeadsAdvance :=
  fun t => inferInstanceAs (Decidable (t.input.Advances t.pre.latestBlockNumber))

/-! ## Every block once -/

/-- The blocks from `first + 1` to `last`, in order. -/
def blocks (first last : ℕ) : List ℕ := List.range' (first + 1) (last - first)

section Blocks

variable {first last start : ℕ}

theorem blocks_eq_nil (h : last ≤ first) : blocks first last = [] := by
  unfold blocks
  rw [Nat.sub_eq_zero_of_le h, List.range'_zero]

theorem blocks_snoc (h : first ≤ last) :
    blocks first last ++ [last + 1] = blocks first (last + 1) := by
  unfold blocks
  rw [Nat.succ_sub h, List.range'_concat]
  congr 2
  omega

theorem blocks_append (hstart : start ≤ first) (h : first ≤ last) :
    blocks start first ++ blocks first last = blocks start last := by
  unfold blocks
  rw [show last - start = (first - start) + (last - first) by omega, ← List.range'_append]
  congr 2
  omega

/-- Rounds from `first` to `last` continue the blocks from `start` to `first` only if
these end where the round begins, and the whole ends where the round does. -/
theorem blocks_append_eq_iff {latest : ℕ} (h : first < last) :
    blocks start first ++ blocks first last = blocks start latest
      ↔ start ≤ first ∧ latest = last := by
  constructor
  · intro heq
    have hlength := congrArg List.length heq
    have hlast : last ∈ blocks start first ++ blocks first last := by
      simp only [blocks, List.mem_append, List.mem_range'_1]
      omega
    have hfirst : first + 1 ∈ blocks start first ++ blocks first last := by
      simp only [blocks, List.mem_append, List.mem_range'_1]
      omega
    rw [heq] at hfirst
    simp only [blocks, List.length_append, List.length_range', List.mem_range'_1] at hlength hfirst
    omega
  · rintro ⟨hstart, rfl⟩
    exact blocks_append hstart (Nat.le_of_lt h)

end Blocks

/-- Between two rounds, the blocks processed since `start` are those up to
`lastBlockNumber`, each once and in order. -/
def ProcessedOnce (start : ℕ) (p : Process) : Prop :=
  p.phase = .sleeping → p.processed = blocks start p.lastBlockNumber

/-- If a round of the worker is over, then `latestBlockNumber` still is its end, and the
round did not begin before `start`. -/
def RoundSettled (start : ℕ) (t : Transition Process Signal Unit) : Prop :=
  ∀ to_, t.input = .rangeProcessed → t.pre.phase = .returned .startWorker to_ →
    start ≤ t.pre.lastBlockNumber ∧ t.pre.latestBlockNumber = to_

/-- The head that `main` catches up with is not behind the block it has read, and no
notification that arrives in a round of the worker says anything new. -/
structure Quiet (t : Transition Process Signal Unit) : Prop where
  head : ∀ number, t.input = .head number → t.pre.lastBlockNumber ≤ number
  round : ∀ number to_, t.input = .finalizedHead number →
    t.pre.phase.range_end = some (.startWorker, to_) → number = t.pre.latestBlockNumber

/-- Where the process is if no block was lost so far. In a round it is at some block up
to the round's end, and no head before that end has been forgotten. -/
inductive OnTrack (start : ℕ) : Process → Prop
  | starting : OnTrack start ⟨start, 0, start, .starting, []⟩
  | main_range {i to_ : ℕ} (hstart : start ≤ i) (hi : i < to_) :
      OnTrack start ⟨start, 0, start, .range .main (i + 1) to_, blocks start i⟩
  | main_returned {to_ : ℕ} :
      OnTrack start ⟨start, 0, start, .returned .main to_, blocks start to_⟩
  | sleeping {last latest : ℕ} :
      OnTrack start ⟨last, latest, last, .sleeping, blocks start last⟩
  | range {last latest i to_ : ℕ} (hlast : last ≤ i) (hi : i < to_) (hlatest : to_ ≤ latest) :
      OnTrack start ⟨last, latest, last, .range .startWorker (i + 1) to_,
        blocks start last ++ blocks last i⟩
  | returned {last latest to_ : ℕ} (hlast : last < to_) (hlatest : to_ ≤ latest) :
      OnTrack start ⟨last, latest, last, .returned .startWorker to_,
        blocks start last ++ blocks last to_⟩
  | failed {last latest : ℕ} {processed : List ℕ} :
      OnTrack start ⟨last, latest, last, .failed, processed⟩

/-- Where the process is if, moreover, all was quiet: no range ends before `start`, and the
head is still where the round is to end. -/
structure Steady (start : ℕ) (p : Process) : Prop where
  start_le : start ≤ p.lastBlockNumber
  main_end : ∀ to_, p.phase.range_end = some (.main, to_) → start ≤ to_
  round_end : ∀ to_, p.phase.range_end = some (.startWorker, to_) → p.latestBlockNumber = to_

section Steps

variable {start : ℕ} {p : Process} {signal : Signal}

theorem OnTrack.processed_once (h : OnTrack start p) : ProcessedOnce start p := by
  intro hsleeping
  cases h with
  | sleeping => rfl
  | _ => cases hsleeping

/-- A step loses no block, as long as a round that is over is settled. -/
theorem OnTrack.step (h : OnTrack start p) (hheads : HeadsAdvance (indexer.fire p signal))
    (hsettled : RoundSettled start (indexer.fire p signal)) : OnTrack start (p.step signal) := by
  have hkept := h
  cases signal with
  | head number =>
    cases h with
    | starting =>
      unfold Process.step
      simp only [Process.enter_range]
      by_cases hnext : start + 1 ≤ number
      · rw [if_pos hnext, ← blocks_eq_nil (Nat.le_refl start)]
        exact .main_range (Nat.le_refl start) hnext
      · rw [if_neg hnext, ← blocks_eq_nil (Nat.le_of_lt_succ (Nat.lt_of_not_le hnext))]
        exact .main_returned
    | _ => exact hkept
  | finalizedHead number =>
    have hle : p.latestBlockNumber ≤ number := hheads
    cases h with
    | sleeping => exact .sleeping
    | range hlast hi hlatest => exact .range hlast hi (Nat.le_trans hlatest hle)
    | returned hlast hlatest => exact .returned hlast (Nat.le_trans hlatest hle)
    | failed => exact .failed
    -- `main` has not subscribed yet
    | _ => exact hkept
  | blockProcessed =>
    cases h with
    | @main_range i to_ hstart hi =>
      unfold Process.step
      simp only [Process.enter_range]
      rw [blocks_snoc hstart]
      by_cases hnext : i + 1 + 1 ≤ to_
      · rw [if_pos hnext]
        exact .main_range (Nat.le_succ_of_le hstart) hnext
      · rw [if_neg hnext]
        obtain rfl : to_ = i + 1 := by omega
        exact .main_returned
    | @range last latest i to_ hlast hi hlatest =>
      unfold Process.step
      simp only [Process.enter_range]
      rw [List.append_assoc, blocks_snoc hlast]
      by_cases hnext : i + 1 + 1 ≤ to_
      · rw [if_pos hnext]
        exact .range (Nat.le_succ_of_le hlast) hnext hlatest
      · rw [if_neg hnext]
        obtain rfl : to_ = i + 1 := by omega
        exact .returned (by omega) hlatest
    | _ => exact hkept
  | rangeProcessed =>
    cases h with
    -- no head has arrived yet, so the worker goes to sleep
    | main_returned => exact .sleeping
    | @returned last latest to_ hlast hlatest =>
      obtain ⟨hstart, rfl⟩ : start ≤ last ∧ latest = to_ := hsettled to_ rfl rfl
      rw [blocks_append hstart (Nat.le_of_lt hlast)]
      exact .sleeping
    | _ => exact hkept
  | timeout =>
    cases h with
    | @sleeping last latest =>
      unfold Process.step
      simp only [Process.loop, Process.enter_range]
      by_cases hbehind : last < latest
      · rw [if_pos hbehind, if_pos (Nat.succ_le_of_lt hbehind),
          ← List.append_nil (blocks start last), ← blocks_eq_nil (Nat.le_refl last)]
        exact .range (Nat.le_refl last) hbehind (Nat.le_refl latest)
      · rw [if_neg hbehind]
        exact .sleeping
    | _ => exact hkept
  | rejected =>
    cases h with
    | starting => exact .failed
    | main_range => exact .failed
    | range => exact .failed
    | _ => exact hkept

/-- A round that is not settled loses the blocks between its end and the head. -/
theorem OnTrack.settled (h : OnTrack start p) (honce : ProcessedOnce start (p.step signal)) :
    RoundSettled start (indexer.fire p signal) := by
  rintro to_ hsignal hreturned
  obtain rfl : signal = .rangeProcessed := hsignal
  rw [Machine.fire_pre] at hreturned ⊢
  cases h with
  | @returned last latest to_' hlast hlatest =>
    obtain ⟨-, rfl⟩ := Phase.returned.inj hreturned
    exact (blocks_append_eq_iff hlast).mp (honce rfl)
  | _ => cases hreturned

/-- While all is quiet, rounds are settled. -/
theorem Steady.settled (h : Steady start p) : RoundSettled start (indexer.fire p signal) :=
  fun to_ _ hreturned => ⟨h.start_le, h.round_end to_ (congrArg Phase.range_end hreturned)⟩

/-- Outside of a range only `lastBlockNumber` is at stake. -/
theorem steady_of_range_end (hstart : start ≤ p.lastBlockNumber)
    (hphase : p.phase.range_end = none) : Steady start p := by
  refine ⟨hstart, fun to_ heq => ?_, fun to_ heq => ?_⟩
  · rw [hphase] at heq
    cases heq
  · rw [hphase] at heq
    cases heq

theorem range_end_enter_range (caller : Caller) (i to_ : ℕ) :
    (p.enter_range caller i to_).phase.range_end = some (caller, to_) := by
  unfold Process.enter_range
  by_cases hle : i ≤ to_
  · rw [if_pos hle]
    rfl
  · rw [if_neg hle]
    rfl

theorem steady_enter_range {caller : Caller} {i to_ : ℕ} (hstart : start ≤ p.lastBlockNumber)
    (hmain : caller = .main → start ≤ to_)
    (hround : caller = .startWorker → p.latestBlockNumber = to_) :
    Steady start (p.enter_range caller i to_) := by
  have hend := range_end_enter_range (p := p) caller i to_
  refine ⟨hstart, fun to_' heq => ?_, fun to_' heq => ?_⟩
  · cases hend.symm.trans heq
    exact hmain rfl
  · cases hend.symm.trans heq
    exact hround rfl

theorem steady_loop (hstart : start ≤ p.lastBlockNumber) : Steady start p.loop := by
  unfold Process.loop
  by_cases hbehind : p.lastBlockNumber < p.latestBlockNumber
  · rw [if_pos hbehind]
    exact steady_enter_range hstart (fun heq => by cases heq) fun _ => rfl
  · rw [if_neg hbehind]
    exact steady_of_range_end hstart rfl

theorem Steady.step (h : Steady start p) (htrack : OnTrack start p)
    (hquiet : Quiet (indexer.fire p signal)) : Steady start (p.step signal) := by
  cases signal with
  | head number =>
    cases htrack with
    | starting =>
      exact steady_enter_range (Nat.le_refl start) (fun _ => hquiet.head number rfl)
        fun heq => by cases heq
    | _ => exact h
  | finalizedHead number =>
    change Steady start (if p.phase.subscribed then { p with latestBlockNumber := number } else p)
    by_cases hsubscribed : p.phase.subscribed = true
    · rw [if_pos hsubscribed]
      refine ⟨h.start_le, h.main_end, fun to_ hround => ?_⟩
      exact (hquiet.round number to_ rfl hround).trans (h.round_end to_ hround)
    · rw [if_neg hsubscribed]
      exact h
  | blockProcessed =>
    cases htrack with
    | @main_range i to_ hstart hi =>
      exact steady_enter_range h.start_le (fun _ => h.main_end to_ rfl) fun heq => by cases heq
    | @range last latest i to_ hlast hi hlatest =>
      exact steady_enter_range h.start_le (fun heq => by cases heq) fun _ => h.round_end to_ rfl
    | _ => exact h
  | rangeProcessed =>
    cases htrack with
    | @main_returned to_ => exact steady_loop (h.main_end to_ rfl)
    | @returned last latest to_ hlast hlatest =>
      have hstart : start ≤ last := h.start_le
      exact steady_of_range_end (show start ≤ latest by omega) rfl
    | _ => exact h
  | timeout =>
    cases htrack with
    | sleeping => exact steady_loop h.start_le
    | _ => exact h
  | rejected =>
    cases htrack with
    | starting => exact steady_of_range_end h.start_le rfl
    | main_range => exact steady_of_range_end h.start_le rfl
    | range => exact steady_of_range_end h.start_le rfl
    | _ => exact h

end Steps

/-! ## Runs -/

section Runs

variable {saved : ℕ} {tr : List (Transition Process Signal Unit)} {p : Process}

theorem settled_of_quiet (hrun : indexer.Run HeadsAdvance (started saved) tr p)
    (hquiet : ∀ t ∈ tr, Quiet t) : ∀ t ∈ tr, RoundSettled saved t := by
  intro t ht
  have hall : ∀ t ∈ tr, HeadsAdvance t ∧ Quiet t := by
    intro t ht
    obtain ⟨tr₁, -, -, hheads⟩ := hrun.of_mem ht
    exact ⟨hheads, hquiet t ht⟩
  obtain ⟨tr₁, hbefore, hfire, -⟩ := (hrun.restrict hall).of_mem ht
  have hpre : OnTrack saved t.pre ∧ Steady saved t.pre := by
    refine hbefore.state_invariant (I := fun p => OnTrack saved p ∧ Steady saved p) ?_ ?_
    · exact ⟨.starting, steady_of_range_end (Nat.le_refl saved) rfl⟩
    · rintro p signal ⟨htrack, hsteady⟩ ⟨hheads, hquiet⟩
      exact ⟨htrack.step hheads hsteady.settled, hsteady.step htrack hquiet⟩
  rw [hfire]
  exact hpre.2.settled

/-- **Every block once.** In a run of the process, the blocks processed are, whenever
the worker is between two rounds, exactly those from the saved one up to
`lastBlockNumber`, if and only if whenever a round is over `latestBlockNumber` still is
its end, and the round did not begin before the saved block. So it is if `main` finds no
head behind the saved block, and no new head arrives during a round. -/
theorem processed_once_iff (hrun : indexer.Run HeadsAdvance (started saved) tr p) :
    ((∀ t ∈ tr, ProcessedOnce saved t.post) ↔ ∀ t ∈ tr, RoundSettled saved t)
    ∧ ((∀ t ∈ tr, Quiet t) → ∀ t ∈ tr, RoundSettled saved t) := by
  refine ⟨?_, settled_of_quiet hrun⟩
  rw [← Machine.along_iff_forall, ← Machine.along_iff_forall]
  refine (hrun.along_iff (J := fun _ p => OnTrack saved p) ?_ ?_ ?_).1
  · exact .starting
  · intro tr p signal _ htrack hheads
    constructor
    · exact htrack.settled
    · exact fun hsettled => (htrack.step hheads hsettled).processed_once
  · exact fun tr p signal _ htrack hheads hsettled => htrack.step hheads hsettled

end Runs

/-- `main` catches up with head 1, head 3 arrives, and the worker processes what is new
before the next head arrives. -/
def quiet_signals : List Signal :=
  [.head 1, .blockProcessed, .rangeProcessed, .finalizedHead 3, .timeout, .blockProcessed,
    .blockProcessed, .rangeProcessed, .finalizedHead 4]

theorem processed_once_quiet :
    (∀ t ∈ indexer.trace (started 0) quiet_signals, ProcessedOnce 0 t.post)
      ↔ ∀ t ∈ indexer.trace (started 0) quiet_signals, RoundSettled 0 t :=
  (processed_once_iff (Machine.run_trace _ _ (by decide))).1

/-- `main` catches up with head 1, head 2 arrives, the worker starts with it, and head 4
arrives before it is done. -/
def head_during_round : List Signal :=
  [.head 1, .blockProcessed, .rangeProcessed, .finalizedHead 2, .timeout, .finalizedHead 4,
    .blockProcessed, .rangeProcessed]

/-- **Two blocks skipped.** The process has processed blocks 1 and 2, and
`lastBlockNumber` as well as the file say 4. -/
theorem head_during_round_skips :
    indexer.Run HeadsAdvance (started 0) (indexer.trace (started 0) head_during_round)
      (indexer.final (started 0) head_during_round)
    ∧ indexer.final (started 0) head_during_round
      = { lastBlockNumber := 4, latestBlockNumber := 4, lastBlockNumberFile := 4,
          phase := .sleeping, processed := [1, 2] }
    ∧ ¬ProcessedOnce 0 (indexer.final (started 0) head_during_round) := by
  refine ⟨Machine.run_trace _ _ (by decide), by decide, fun honce => ?_⟩
  have hprocessed := honce rfl
  revert hprocessed
  decide

end Eco2.Indexer
