import Mathlib.Algebra.GroupWithZero.Nat
import Ironstate.Examples.Ledger
import Ironstate.Aggregate.Proofs.Passing

/-!
# The books balance

`Books` is the account of any size, by the events in its log. The account of the example is that one,
in any log that a run of commands leaves in a journal that keeps its history, until a deposit is
too large for the word (`transact_reconciles`): what is in it is what was deposited less what was
withdrawn, and nothing is left behind when it is closed.
-/

namespace Ironstate.Examples.Ledger

/-! ## An account of any size -/

/-- An account whose balance has no bound. -/
structure Book where
  phase : AccountPhase
  balance : Nat

/-- The logs that may be written, with the account they lead to. -/
inductive Books : List LedgerEvent → Book → Prop
  | opened : Books [] ⟨.open, 0⟩
  | deposited {log : List LedgerEvent} {balance : Nat} (before : Books log ⟨.open, balance⟩)
      (cents : UInt64) : Books (log ++ [.deposited cents]) ⟨.open, balance + cents.toNat⟩
  | withdrawn {log : List LedgerEvent} {balance : Nat} (before : Books log ⟨.open, balance⟩)
      {cents : UInt64} (covered : cents.toNat ≤ balance) :
      Books (log ++ [.withdrawn cents]) ⟨.open, balance - cents.toNat⟩
  | frozen {log : List LedgerEvent} {balance : Nat} (before : Books log ⟨.open, balance⟩) :
      Books (log ++ [.frozen]) ⟨.frozen, balance⟩
  | unfrozen {log : List LedgerEvent} {balance : Nat} (before : Books log ⟨.frozen, balance⟩) :
      Books (log ++ [.unfrozen]) ⟨.open, balance⟩
  | closed {log : List LedgerEvent} {phase : AccountPhase} (before : Books log ⟨phase, 0⟩)
      (running : phase ≠ .closed) : Books (log ++ [.closed]) ⟨.closed, 0⟩

/-- What an event brings in. -/
def LedgerEvent.incoming : LedgerEvent → Nat
  | .deposited cents => cents.toNat
  | _ => 0

/-- What an event takes out. -/
def LedgerEvent.outgoing : LedgerEvent → Nat
  | .withdrawn cents => cents.toNat
  | _ => 0

/-- What a log brings in. -/
def deposits (log : List LedgerEvent) : Nat := (log.map LedgerEvent.incoming).sum

/-- What a log takes out. -/
def withdrawals (log : List LedgerEvent) : Nat := (log.map LedgerEvent.outgoing).sum

theorem deposits_push (log : List LedgerEvent) (event : LedgerEvent) :
    deposits (log ++ [event]) = deposits log + event.incoming := by
  simp [deposits]

theorem withdrawals_push (log : List LedgerEvent) (event : LedgerEvent) :
    withdrawals (log ++ [event]) = withdrawals log + event.outgoing := by
  simp [withdrawals]

namespace Books

theorem reconciles {log : List LedgerEvent} {book : Book} (books : Books log book) :
    book.balance + withdrawals log = deposits log := by
  induction books with
  | opened => rfl
  | deposited before cents ih =>
    simp only [deposits_push, withdrawals_push, LedgerEvent.incoming, LedgerEvent.outgoing]
    dsimp only at ih
    omega
  | withdrawn before covered ih =>
    simp only [deposits_push, withdrawals_push, LedgerEvent.incoming, LedgerEvent.outgoing]
    dsimp only at ih
    omega
  | frozen before ih =>
    rw [deposits_push, withdrawals_push]
    exact ih
  | unfrozen before ih =>
    rw [deposits_push, withdrawals_push]
    exact ih
  | closed before running ih =>
    rw [deposits_push, withdrawals_push]
    exact ih

theorem empty_of_closed {log : List LedgerEvent} {book : Book} (books : Books log book)
    (ended : book.phase = .closed) : book.balance = 0 := by
  cases books with
  | closed before running => rfl
  | _ => cases ended

end Books

/-! ## One command -/

/-- The events that an account can emit. -/
inductive Admits (account : Account) : LedgerEvent → Prop
  | deposited (live : account.phase = .open) (cents : UInt64) : Admits account (.deposited cents)
  | withdrawn (live : account.phase = .open) {cents : UInt64}
      (covered : cents ≤ account.balanceCents) : Admits account (.withdrawn cents)
  | frozen (live : account.phase = .open) : Admits account .frozen
  | unfrozen (still : account.phase = .frozen) : Admits account .unfrozen
  | closed (running : account.phase ≠ .closed) (empty : account.balanceCents = 0) :
      Admits account .closed

theorem decide_ok {account : Account} {cmd : Command} {events : List LedgerEvent}
    (decided : account.decide cmd = .ok events) :
    ∃ event, events = [event] ∧ Admits account event := by
  unfold Account.decide at decided
  by_cases ended : account.phase = .closed
  · rw [if_pos ended] at decided
    cases decided
  rw [if_neg ended] at decided
  have running : account.phase = .open ∨ account.phase = .frozen := by
    cases phase : account.phase with
    | «open» => exact .inl rfl
    | frozen => exact .inr rfl
    | closed => exact absurd phase ended
  cases cmd with
  | deposit cents =>
    rcases running with live | still
    · simp [live] at decided
      exact ⟨_, decided.symm, .deposited live cents⟩
    · simp [still] at decided
  | withdraw cents =>
    rcases running with live | still
    · by_cases short : account.balanceCents < cents
      · simp [live, short] at decided
      · simp [live, short] at decided
        exact ⟨_, decided.symm, .withdrawn live (UInt64.not_lt.mp short)⟩
    · simp [still] at decided
  | freeze =>
    rcases running with live | still
    · simp [live] at decided
      exact ⟨_, decided.symm, .frozen live⟩
    · simp [still] at decided
  | unfreeze =>
    rcases running with live | still
    · simp [live] at decided
    · simp [still] at decided
      exact ⟨_, decided.symm, .unfrozen still⟩
  | close =>
    by_cases empty : account.balanceCents = 0
    · simp [empty] at decided
      exact ⟨_, decided.symm, .closed ended empty⟩
    · simp [empty] at decided

/-- The account is that of the books. -/
structure Agrees (log : List LedgerEvent) (account : Account) : Prop where
  books : Books log ⟨account.phase, account.balanceCents.toNat⟩

/-- A deposit in the log is too large for the balance before it. -/
def Overflows (log : List LedgerEvent) : Prop :=
  ∃ before cents later book, log = before ++ .deposited cents :: later ∧ Books before book ∧
    2 ^ 64 ≤ book.balance + cents.toNat

theorem Overflows.append {log : List LedgerEvent} (overflows : Overflows log)
    (further : List LedgerEvent) : Overflows (log ++ further) := by
  obtain ⟨before, cents, later, book, rfl, books, ended⟩ := overflows
  exact ⟨before, cents, later ++ further, book, by simp, books, ended⟩

/-- One event keeps the account that of the books, unless it is such a deposit. -/
theorem Agrees.evolve {log : List LedgerEvent} {account : Account} (agrees : Agrees log account)
    {event : LedgerEvent} (admits : Admits account event) :
    Agrees (log ++ [event]) (account.evolve event) ∨ Overflows (log ++ [event]) := by
  have books := agrees.books
  cases admits with
  | deposited live cents =>
    rw [live] at books
    by_cases ended : 2 ^ 64 ≤ account.balanceCents.toNat + cents.toNat
    · exact .inr ⟨log, cents, [], _, rfl, books, ended⟩
    · refine .inl ⟨?_⟩
      have sum : (account.balanceCents + cents).toNat =
          account.balanceCents.toNat + cents.toNat := by
        rw [UInt64.toNat_add, Nat.mod_eq_of_lt (Nat.lt_of_not_le ended)]
      simp only [Account.evolve, live, sum]
      exact books.deposited cents
  | withdrawn live covered =>
    rw [live] at books
    refine .inl ⟨?_⟩
    simp only [Account.evolve, live, UInt64.toNat_sub_of_le _ _ covered]
    exact books.withdrawn (UInt64.le_iff_toNat_le.mp covered)
  | frozen live =>
    rw [live] at books
    exact .inl ⟨books.frozen⟩
  | unfrozen still =>
    rw [still] at books
    exact .inl ⟨books.unfrozen⟩
  | closed running empty =>
    rw [empty] at books
    refine .inl ⟨?_⟩
    simp only [Account.evolve, empty]
    exact books.closed running

/-! ## The loop -/

section Loop

variable {chacha12 : Seed → UInt64 → UInt32} {J : Type}
variable [Journal J (Rules (SeededEntropy chacha12)) Unit]
variable [ContractJournal J (Rules (SeededEntropy chacha12))]
variable [KeepsHistory J (Rules (SeededEntropy chacha12))]

/-- The events of a history, one after the other. -/
def logOf (history : StreamId → List (Record (Rules (SeededEntropy chacha12)))) :
    List LedgerEvent :=
  (history stream).flatMap (·.events)

theorem logOf_push (history : StreamId → List (Record (Rules (SeededEntropy chacha12))))
    (record : Record (Rules (SeededEntropy chacha12))) :
    logOf (pushTo history stream record) = logOf history ++ record.events := by
  simp [logOf]

/-- What holds of the journal and the account between two commands. -/
structure Between (history : StreamId → List (Record (Rules (SeededEntropy chacha12))))
    (journal : J) (account : Aggregate (Rules (SeededEntropy chacha12))) : Prop where
  holds : KeepsHistory.Holds Account.open history journal
  state : account.state =
    stateAfter (A := Rules (SeededEntropy chacha12)) Account.open (history stream)
      (history stream).length
  agrees : Agrees (logOf history) account.state ∨ Overflows (logOf history)

variable {history : StreamId → List (Record (Rules (SeededEntropy chacha12)))} {journal : J}
variable {account : Aggregate (Rules (SeededEntropy chacha12))}

theorem Between.fresh : Between (fun _ => []) (ContractJournal.fresh Account.open : J)
    (⟨Account.open⟩ : Aggregate (Rules (SeededEntropy chacha12))) :=
  ⟨KeepsHistory.fresh _, rfl, .inl ⟨.opened⟩⟩

/-- The context for the next command. -/
theorem Between.ctxAtHead (between : Between history journal account) :
    ctxAtHead journal = .ok
      { entropy := .at ⟨.replicate 32 0⟩ (posAt (history stream) (history stream).length),
        actor := 0, now := 0 } := by
  have position := KeepsHistory.headPos between.holds stream
  unfold headPos at position
  unfold Ledger.ctxAtHead
  cases headed : Journal.head journal stream with
  | none =>
    rw [headed] at position
    rw [← Except.ok.inj position]
    rfl
  | some head =>
    rw [headed] at position
    simp only [position]
    rfl

/-- A command is rejected, or its event joins the log. -/
theorem Between.execute (between : Between history journal account) (command : Command)
    (ctx : OwnedDeterministicCtx (SeededEntropy chacha12) UInt32) :
    ∃ history', Between history' (execute journal stream account command ctx).journal
      (execute journal stream account command ctx).aggregate := by
  rcases KeepsHistory.execute between.holds stream account command ctx with
    ⟨rejection, drawn, _, rejected⟩ | ⟨events, drawn, pos, journal', decided, _, made, kept⟩
  · rw [rejected]
    exact ⟨history, between⟩
  · rw [made]
    refine ⟨_, kept, ?_, ?_⟩
    · rw [pushTo_self, List.length_append, List.length_singleton, stateAfter_push, ← between.state]
    · obtain ⟨_, decides⟩ := Aggregate.decideOnly_ok_iff.mp decided
      obtain ⟨event, rfl, admits⟩ := decide_ok (congrArg Prod.fst decides)
      rw [logOf_push]
      rcases between.agrees with agrees | overflows
      · exact agrees.evolve admits
      · exact .inr (overflows.append [event])

theorem Between.transact (between : Between history journal account) (commands : List Command) :
    ∃ journal' account' history', transact commands journal account = .ok (journal', account') ∧
      Between history' journal' account' := by
  induction commands generalizing history journal account with
  | nil => exact ⟨journal, account, history, rfl, between⟩
  | cons command commands ih =>
    obtain ⟨history', between'⟩ := between.execute command _
    obtain ⟨journal', account', later, ran, ended⟩ := ih between'
    refine ⟨journal', account', later, ?_, ended⟩
    rw [Ledger.transact, between.ctxAtHead]
    exact ran

/-- The events that the journal reads back are the log. -/
theorem Between.log (between : Between history journal account) :
    ∃ stored, Journal.eventsSince journal stream none = .ok stored ∧
      stored.map (·.event) = logOf history := by
  refine ⟨_, KeepsHistory.eventsSince stream none between.holds, ?_⟩
  have read : ∀ (records : List (Record (Rules (SeededEntropy chacha12)))) (first : Nat),
      (Lib.readings tagged first records).map (·.event) = records.flatMap (·.events) := by
    intro records
    induction records with
    | nil => exact fun _ => rfl
    | cons record records ih =>
      intro first
      rw [Lib.readings_cons, List.map_append, ih, List.flatMap_cons, tagged, List.map_map]
      congr 1
      exact List.map_id _
  exact read _ _

/-- The balance is what the log brings in less what it takes out, and an account that is closed is
empty. -/
structure Reconciled (log : List LedgerEvent) (account : Account) : Prop where
  books : Books log ⟨account.phase, account.balanceCents.toNat⟩
  money : account.balanceCents.toNat + withdrawals log = deposits log
  empty : account.phase = .closed → account.balanceCents = 0

/-- Over any journal that keeps its history, and any commands, the journal's log is that of an
account of any size, whose balance the account has, or a deposit was too large for the word; and
the journal alone gives the account back. -/
theorem transact_reconciles (commands : List Command) (seed : Seed) :
    ∃ (journal : J) (account : Aggregate (Rules (SeededEntropy chacha12)))
      (stored : List (VersionedEvent (Rules (SeededEntropy chacha12)))),
      transact commands (ContractJournal.fresh Account.open : J) ⟨Account.open⟩ =
          .ok (journal, account) ∧
        Journal.eventsSince journal stream none = .ok stored ∧
        (Reconciled (stored.map (·.event)) account.state ∨ Overflows (stored.map (·.event))) ∧
        ∃ entropy : SeededEntropy chacha12,
          resume journal stream seed = .ok (account, entropy) := by
  obtain ⟨journal, account, history, ran, between⟩ := (Between.fresh (J := J)).transact commands
  obtain ⟨stored, read, log⟩ := between.log
  have resumed := @KeepsHistory.resume _ _ _ _ _ _ _ _ chacha12 between.holds stream seed
  rw [← between.state] at resumed
  refine ⟨journal, account, stored, ran, read, ?_, _, resumed⟩
  rw [log]
  refine between.agrees.imp_left fun agrees => ⟨agrees.books, agrees.books.reconciles, ?_⟩
  intro ended
  exact UInt64.toNat_inj.mp (agrees.books.empty_of_closed ended)

end Loop

/-! ## `test!` -/

/-- Every hop is legal, and a withdrawal is covered. -/
theorem Admits.sound {E : Type} {account : Account} {event : LedgerEvent}
    (admits : Admits account event) :
    SoundStep (invariants E) (account, event, account.evolve event) := by
  cases admits with
  | deposited live cents =>
    refine ⟨if_pos BEq.rfl, fun invariant declared => ?_⟩
    cases List.mem_singleton.mp declared
    rfl
  | withdrawn live covered =>
    refine ⟨if_pos BEq.rfl, fun invariant declared => ?_⟩
    cases List.mem_singleton.mp declared
    exact decide_eq_true covered
  | frozen live =>
    refine ⟨?_, fun invariant declared => ?_⟩
    · change legalHop account.phase AccountPhase.frozen = true
      rw [live]
      decide
    · cases List.mem_singleton.mp declared
      rfl
  | unfrozen still =>
    refine ⟨?_, fun invariant declared => ?_⟩
    · change legalHop account.phase AccountPhase.open = true
      rw [still]
      decide
    · cases List.mem_singleton.mp declared
      rfl
  | closed running empty =>
    refine ⟨?_, fun invariant declared => ?_⟩
    · change legalHop account.phase AccountPhase.closed = true
      cases phase : account.phase with
      | «open» => decide
      | frozen => decide
      | closed => exact absurd phase running
    · cases List.mem_singleton.mp declared
      rfl

/-- `test!(Account)` passes over any inputs that have no gap. -/
theorem runTest_account {chacha12 : Seed → UInt64 → UInt32} {R : Type}
    (inputs : AggregateArbitrary (Rules (SeededEntropy chacha12)) R chacha12)
    (seededRunner : UInt64 → R) (params : DriveParams) :
    Lib.Yields (fun failure => failure = .noValue ∧ inputs.Gap) (fun _ => True)
      (runTest inputs seededRunner params (invariants (SeededEntropy chacha12))) := by
  refine runTest_sound (fun aggregate input step listed => ?_) seededRunner params
  rcases aggregate.emitted_cases input with nothing | ⟨-, decided⟩
  · rw [nothing] at listed
    cases listed
  · obtain ⟨event, emitted, admits⟩ := decide_ok decided
    rw [emitted] at listed
    obtain rfl := List.mem_singleton.mp listed
    exact admits.sound

end Ironstate.Examples.Ledger
