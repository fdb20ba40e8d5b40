import Mathlib.Algebra.GroupWithZero.Nat
import Ironstate.Aggregate.Testkit
import Ironstate.Aggregate.Draws
import Ironstate.Journal.Kept

/-!
# The `catalog-ctx` example

`examples/catalog-ctx`: a chest whose draws read a weighted catalogue out of an owned context. The
catalogue is any whose weights add up to a word other than 0, as those of the standard one do, so that
`item_at` does not overflow and finds an entry. Every draw goes through `draw_range`, which a
source may override; it is a parameter. The names of the items are left out.
-/

namespace Ironstate.Examples.CatalogCtx

/-! ## The catalogue -/

/-- `struct Entry`. -/
structure Entry where
  item : UInt16
  weight : UInt64
  jackpot : Bool
  deriving DecidableEq

/-- The weights of some entries together. -/
def weights (entries : List Entry) : Nat := (entries.map fun entry => entry.weight.toNat).sum

/-- `struct Catalog`. -/
structure Catalog where
  entries : List Entry
  total : UInt64
  summed : weights entries = total.toNat
  positive : 0 < total

namespace Catalog

/-- `Catalog::standard`. -/
def standard : Catalog where
  entries := [⟨1, 60, false⟩, ⟨2, 25, false⟩, ⟨3, 10, false⟩, ⟨4, 4, false⟩, ⟨5, 1, true⟩]
  total := 100
  summed := rfl
  positive := by decide

theorem nonempty (catalog : Catalog) : catalog.entries ≠ [] := by
  intro empty
  have summed := catalog.summed
  have positive := UInt64.lt_iff_toNat_lt.mp catalog.positive
  rw [← summed, empty] at positive
  exact absurd positive (by decide)

/-- `Catalog::total_weight`. -/
def totalWeight (catalog : Catalog) : UInt64 := catalog.total

/-- The loop of `item_at`, from the weight before the entries. -/
def bucketOf (pick : UInt64) : UInt64 → List Entry → Option Entry
  | _, [] => none
  | acc, entry :: entries =>
    let acc := acc + entry.weight
    if pick < acc then some entry else bucketOf pick acc entries

/-- `Catalog::item_at`. -/
def itemAt (catalog : Catalog) (pick : UInt64) : UInt16 :=
  match bucketOf pick 0 catalog.entries with
  | some entry => entry.item
  | none => (catalog.entries.getLast catalog.nonempty).item

/-- `Catalog::is_jackpot`. -/
def isJackpot (catalog : Catalog) (item : UInt16) : Bool :=
  catalog.entries.any fun entry => entry.item == item && entry.jackpot

end Catalog

/-! ## The phase machine -/

/-- `enum ChestPhase`. -/
inductive ChestPhase where
  | «sealed»
  | «open»
  | spent
  deriving DecidableEq

/-- `enum PhaseStep`. -/
inductive PhaseStep where
  | unseal
  | exhaust
  deriving DecidableEq

instance : EventKind PhaseStep where
  kinds _ := none
  variantName
    | .unseal => "Unseal"
    | .exhaust => "Exhaust"
  eventVariants := [.unseal, .exhaust]

instance : StateMachine ChestPhase where
  Event := PhaseStep
  transition
    | .sealed, .unseal => some .open
    | .open, .exhaust => some .spent
    | _, _ => none
  initial := .sealed
  isTerminal phase := phase == .spent
  restriction
    | .open => some [⟨"loot"⟩]
    | _ => none
  stateVariants := [.sealed, .open, .spent]
  variantName
    | .sealed => "Sealed"
    | .open => "Open"
    | .spent => "Spent"

/-! ## Commands, events, errors -/

/-- `enum Command`. -/
inductive Command where
  | «open»
  | draw
  | gamble
  | close
  deriving DecidableEq

instance : EventKind Command where
  kinds
    | .open => none
    | _ => some [⟨"loot"⟩]
  variantName
    | .open => "Open"
    | .draw => "Draw"
    | .gamble => "Gamble"
    | .close => "Close"
  eventVariants := [.open, .draw, .gamble, .close]

/-- `enum ChestEvent`. -/
inductive ChestEvent where
  | opened
  | dropped (item : UInt16)
  | closed
  deriving DecidableEq

/-- `enum ChestError`. -/
inductive ChestError where
  | notSealed
  | notOpen
  | empty
  | gambleLost
  deriving DecidableEq

/-! ## The aggregate -/

/-- `CAPACITY`. -/
def capacity : UInt32 := 8

/-- `struct Chest`. -/
structure ChestState where
  phase : ChestPhase
  drawsLeft : UInt32
  loot : List UInt16
  deriving DecidableEq

namespace ChestState

/-- `Chest::sealed`. -/
def «sealed» : ChestState := ⟨.sealed, 0, []⟩

/-- `evolve`; the draws left are taken off with `saturating_sub`. -/
def evolve (chest : ChestState) : ChestEvent → ChestState
  | .opened => { chest with phase := .open, drawsLeft := capacity }
  | .dropped item =>
    { chest with
      loot := chest.loot ++ [item]
      drawsLeft := if chest.drawsLeft = 0 then 0 else chest.drawsLeft - 1 }
  | .closed => { chest with phase := .spent }

end ChestState

/-- `struct TurnCtx`. -/
structure TurnCtx (E : Type) where
  catalog : Catalog
  entropy : E
  actor : UInt32
  now : LogicalTime

instance {E : Type} : CtxEntropy (TurnCtx E) E where
  entropy ctx := some ctx.entropy
  setEntropy ctx e := { ctx with entropy := e }
  entropy_setEntropy _ _ _ _ := rfl
  setEntropy_entropy := by
    intro ctx e present
    obtain rfl := Option.some.inj present
    rfl
  setEntropy_setEntropy _ _ _ _ _ := rfl

section Chest

variable {E : Type} (range : UInt64 → UInt64 → E → UInt64 × E)

/-- `draw_item`. -/
def drawItem (catalog : Catalog) (e : E) : UInt16 × E :=
  let (pick, e) := range 0 catalog.totalWeight e
  (catalog.itemAt pick, e)

/-- `decide`. -/
def ChestState.decide (chest : ChestState) (cmd : Command) (ctx : TurnCtx E) :
    Except ChestError (List ChestEvent) × TurnCtx E :=
  match cmd with
  | .open =>
    if chest.phase ≠ .sealed then (.error .notSealed, ctx)
    else (.ok [.opened], ctx)
  | .draw =>
    if chest.phase ≠ .open then (.error .notOpen, ctx)
    else if chest.drawsLeft = 0 then (.error .empty, ctx)
    else
      let (item, e) := drawItem range ctx.catalog ctx.entropy
      (.ok [.dropped item], { ctx with entropy := e })
  | .gamble =>
    if chest.phase ≠ .open then (.error .notOpen, ctx)
    else if chest.drawsLeft = 0 then (.error .empty, ctx)
    else
      -- the draw comes before the rule that may reject it
      let (item, e) := drawItem range ctx.catalog ctx.entropy
      if ctx.catalog.isJackpot item then (.ok [.dropped item], { ctx with entropy := e })
      else (.error .gambleLost, { ctx with entropy := e })
  | .close =>
    if chest.phase ≠ .open then (.error .notOpen, ctx)
    else (.ok [.closed], ctx)

/-- `impl AggregateRules for Chest`. -/
abbrev Chest : AggregateRules where
  State := ChestState
  Phase := ChestPhase
  Command := Command
  Event := ChestEvent
  Error := ChestError
  Ctx := TurnCtx E
  phase := ChestState.phase
  decide := ChestState.decide range
  evolve := ChestState.evolve
  eventTypeName := "catalog_ctx::ChestEvent"

/-- `impl AggregateInvariants for Chest`. -/
def invariants : List (AggregateInvariant (Chest range)) :=
  [⟨"a drop adds one item and spends one draw", fun before event after =>
    match event with
    | .dropped _ =>
      after.loot.length == before.loot.length + 1 &&
        after.drawsLeft.toNat + 1 == before.drawsLeft.toNat
    | _ => true⟩]

end Chest

/-- `impl AggregateArbitrary for Chest`; `prop_oneof!`, which draws one of some weighted values, is
third-party code. -/
def arbitrary {chacha12 : Seed → UInt64 → UInt32} {R : Type}
    (range : UInt64 → UInt64 → SeededEntropy chacha12 → UInt64 × SeededEntropy chacha12)
    (oneOf : List (Nat × Command) → R → Option (Command × R)) :
    AggregateArbitrary (Chest range) R chacha12 where
  initialStateStrategy runner := some (.sealed, runner)
  commandStrategy _ runner := oneOf [(1, .open), (4, .draw), (2, .gamble), (1, .close)] runner
  testCtx entropy step := ⟨.standard, entropy, 0, step⟩

/-! ## A turn -/

section Turn

variable {chacha12 : Seed → UInt64 → UInt32}
variable (range : UInt64 → UInt64 → SeededEntropy chacha12 → UInt64 × SeededEntropy chacha12)
variable {J : Type}

/-- `stream`. -/
def stream : StreamId := "chest"

/-- `step`. -/
def step [Journal J (Chest range) Unit] (cmd : Command) (live : Live (Chest range) J) :
    Except (ExecuteError (Chest range)) (Live (Chest range) J) :=
  match execute live.journal stream live.aggregate cmd live.ctx with
  | ⟨.ok _, journal, aggregate, ctx⟩ => .ok ⟨journal, aggregate, ctx⟩
  | ⟨.error error, _, _, _⟩ => .error error

/-- What a turn starts from: a fresh journal, a sealed chest and the stream of the seed. -/
def freshTurn [Journal J (Chest range) Unit] [ContractJournal J (Chest range)] (catalog : Catalog)
    (seed : Seed) : Live (Chest range) J :=
  ⟨ContractJournal.fresh ChestState.sealed, ⟨.sealed⟩, ⟨catalog, .fromSeed seed, 1, 0⟩⟩

/-- The loop of `straight_run`. -/
def drawTimes : Nat → Live (Chest range) (MemoryJournal (Chest range)) →
    Except (ExecuteError (Chest range)) (Live (Chest range) (MemoryJournal (Chest range)))
  | 0, live => .ok live
  | draws + 1, live => do
    let live ← step range .draw live
    drawTimes draws live

/-- `straight_run`: the control run, which never gambles. -/
def straightRun (catalog : Catalog) (seed : Seed) (draws : Nat) :
    Except (ExecuteError (Chest range)) (List UInt16) := do
  let live ← step range .open (freshTurn range catalog seed)
  let live ← drawTimes range draws live
  .ok live.aggregate.state.loot

end Turn

end Ironstate.Examples.CatalogCtx
