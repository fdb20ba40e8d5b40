import Ironstate.Aggregate.Testkit
import Ironstate.Journal.Kept

/-!
# The `ledger` example

`examples/ledger`: an account over a journal. A balance is a word, which wraps as it does in a
release build. `transact` is the loop of the demo, with a context at the head for each command.
-/

namespace Ironstate.Examples.Ledger

/-! ## The phase -/

/-- `enum AccountPhase`. -/
inductive AccountPhase where
  | open
  | frozen
  | closed
  deriving DecidableEq

/-- `enum PhaseStep`. -/
inductive PhaseStep where
  | freeze
  | unfreeze
  | close
  deriving DecidableEq

instance : EventKind PhaseStep where
  kinds _ := none
  variantName
    | .freeze => "Freeze"
    | .unfreeze => "Unfreeze"
    | .close => "Close"
  eventVariants := [.freeze, .unfreeze, .close]

instance : StateMachine AccountPhase where
  Event := PhaseStep
  transition
    | .open, .freeze => some .frozen
    | .frozen, .unfreeze => some .open
    | .open, .close => some .closed
    | .frozen, .close => some .closed
    | _, _ => none
  initial := .open
  isTerminal phase := phase == .closed
  restriction _ := none
  stateVariants := [.open, .frozen, .closed]
  variantName
    | .open => "Open"
    | .frozen => "Frozen"
    | .closed => "Closed"

/-! ## The account -/

/-- `enum Command`. -/
inductive Command where
  | deposit (cents : UInt64)
  | withdraw (cents : UInt64)
  | freeze
  | unfreeze
  | close
  deriving DecidableEq

instance : EventKind Command where
  kinds _ := none
  variantName
    | .deposit _ => "Deposit"
    | .withdraw _ => "Withdraw"
    | .freeze => "Freeze"
    | .unfreeze => "Unfreeze"
    | .close => "Close"
  eventVariants := [.deposit 0, .withdraw 0, .freeze, .unfreeze, .close]

/-- `enum LedgerEvent`. -/
inductive LedgerEvent where
  | deposited (cents : UInt64)
  | withdrawn (cents : UInt64)
  | frozen
  | unfrozen
  | closed
  deriving DecidableEq

/-- `enum LedgerError`. -/
inductive LedgerError where
  | accountClosed
  | accountFrozen
  | overdraft
  | mustBeEmpty
  | invalidTransition
  deriving DecidableEq

/-- `struct Account`. -/
structure Account where
  phase : AccountPhase
  balanceCents : UInt64
  deriving DecidableEq

namespace Account

/-- `Account::open`. -/
def «open» : Account := ⟨.open, 0⟩

/-- `decide`. -/
def decide (account : Account) (cmd : Command) : Except LedgerError (List LedgerEvent) :=
  if account.phase = .closed then .error .accountClosed
  else
    match cmd with
    | .deposit cents =>
      if account.phase = .frozen then .error .accountFrozen
      else .ok [.deposited cents]
    | .withdraw cents =>
      if account.phase = .frozen then .error .accountFrozen
      else if account.balanceCents < cents then .error .overdraft
      else .ok [.withdrawn cents]
    | .freeze => if account.phase = .open then .ok [.frozen] else .error .invalidTransition
    | .unfreeze => if account.phase = .frozen then .ok [.unfrozen] else .error .invalidTransition
    | .close => if account.balanceCents ≠ 0 then .error .mustBeEmpty else .ok [.closed]

/-- `evolve`. -/
def evolve (account : Account) : LedgerEvent → Account
  | .deposited cents => { account with balanceCents := account.balanceCents + cents }
  | .withdrawn cents => { account with balanceCents := account.balanceCents - cents }
  | .frozen => { account with phase := .frozen }
  | .unfrozen => { account with phase := .open }
  | .closed => { account with phase := .closed }

end Account

/-- The rules of `Account`. -/
abbrev Rules (E : Type) : AggregateRules where
  State := Account
  Phase := AccountPhase
  Command := Command
  Event := LedgerEvent
  Error := LedgerError
  Ctx := OwnedDeterministicCtx E UInt32
  phase account := account.phase
  decide account cmd ctx := (account.decide cmd, ctx)
  evolve := Account.evolve
  eventTypeName := "ledger::LedgerEvent"

/-- `Account::invariants`. -/
def invariants (E : Type) : List (AggregateInvariant (Rules E)) :=
  [⟨"withdrawals never overdraw", fun before event _ =>
    match event with
    | .withdrawn cents => decide (before.balanceCents ≥ cents)
    | _ => true⟩]

/-! ## The loop -/

/-- `stream`. -/
def stream : StreamId := "account"

section Loop

variable {chacha12 : Seed → UInt64 → UInt32} {J : Type}
variable [Journal J (Rules (SeededEntropy chacha12)) Unit]

/-- `ctx_at_head`. Its `unwrap` is the error. -/
def ctxAtHead (journal : J) :
    Except JournalError (OwnedDeterministicCtx (SeededEntropy chacha12) UInt32) := do
  let pos ←
    match Journal.head journal stream with
    | none => .ok 0
    | some head => Journal.entropyPos journal stream head
  .ok { entropy := .at ⟨.replicate 32 0⟩ pos, actor := 0, now := 0 }

/-- One command after another, each with a context at the head. -/
def transact : List Command → J → Aggregate (Rules (SeededEntropy chacha12)) →
    Except JournalError (J × Aggregate (Rules (SeededEntropy chacha12)))
  | [], journal, account => .ok (journal, account)
  | command :: commands, journal, account => do
    let ctx ← ctxAtHead journal
    let executed := execute journal stream account command ctx
    transact commands executed.journal executed.aggregate

end Loop

end Ironstate.Examples.Ledger
