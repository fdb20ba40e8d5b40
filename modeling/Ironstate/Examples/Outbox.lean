import Ironstate.Journal.Memory
import Ironstate.Journal.Replay

/-!
# The transactional outbox

`examples/outbox`. A store of three tables (the journal's records, the read model, the outbox)
and a transaction over all of them: `ship` joins an order's append, its projection and its
outbound job in one. A message that `anyhow!` builds is left out of the error it wraps.
-/

namespace Ironstate.Examples.Outbox

/-! ## The domain -/

/-- `enum Phase`. -/
inductive Phase where
  | placed
  | shipped
  | delivered
  | cancelled
  deriving DecidableEq

/-- `enum Step`. -/
inductive Step where
  | ship
  | deliver
  | cancel
  deriving DecidableEq

instance : EventKind Step where
  kinds _ := none
  variantName
    | .ship => "Ship"
    | .deliver => "Deliver"
    | .cancel => "Cancel"
  eventVariants := [.ship, .deliver, .cancel]

instance : StateMachine Phase where
  Event := Step
  transition
    | .placed, .ship => some .shipped
    | .placed, .cancel => some .cancelled
    | .shipped, .deliver => some .delivered
    | _, _ => none
  initial := .placed
  isTerminal phase := phase == .delivered || phase == .cancelled
  restriction _ := none
  stateVariants := [.placed, .shipped, .delivered, .cancelled]
  variantName
    | .placed => "Placed"
    | .shipped => "Shipped"
    | .delivered => "Delivered"
    | .cancelled => "Cancelled"

/-- `enum Command`. -/
inductive Command where
  | ship (carrier : String)
  | deliver
  deriving DecidableEq

instance : EventKind Command where
  kinds _ := none
  variantName
    | .ship _ => "Ship"
    | .deliver => "Deliver"
  eventVariants := [.ship "", .deliver]

/-- `enum Event`. -/
inductive Event where
  | shipped (carrier : String)
  | delivered
  deriving DecidableEq

/-- `enum OrderError`. -/
inductive OrderError where
  | notShippable (phase : Phase)
  deriving DecidableEq

/-- `struct Order`. -/
structure OrderState where
  phase : Phase
  carrier : Option String
  deriving DecidableEq

/-- `Order::placed`. -/
def placed : OrderState := ⟨.placed, none⟩

/-- The rules of `Order`. -/
def Order (E : Type) : AggregateRules where
  State := OrderState
  Phase := Phase
  Command := Command
  Event := Event
  Error := OrderError
  Ctx := OwnedDeterministicCtx E UInt32
  phase order := order.phase
  decide order cmd ctx :=
    match cmd with
    | .ship carrier =>
      if order.phase ≠ .placed then (.error (.notShippable order.phase), ctx)
      else (.ok [.shipped carrier], ctx)
    | .deliver => (.ok [.delivered], ctx)
  evolve order event :=
    match event with
    | .shipped carrier => ⟨.shipped, some carrier⟩
    | .delivered => { order with phase := .delivered }
  eventTypeName := "outbox::Event"

variable {E : Type}

instance : CtxEntropy (Order E).Ctx E :=
  inferInstanceAs (CtxEntropy (OwnedDeterministicCtx E UInt32) E)

/-! ## The store -/

/-- `struct OrderRow`. -/
structure OrderRow where
  status : String
  carrier : Option String
  deriving DecidableEq

/-- `enum Job`. -/
inductive Job where
  | shipmentConfirmation (order carrier : String)
  deriving DecidableEq

/-- `struct Transaction`. -/
structure Transaction (E : Type) where
  appends : List (StreamId × Record (Order E))
  readModel : List (String × OrderRow)
  outbox : List Job

namespace Transaction

/-- `Transaction::upsert_read_model`. -/
def upsertReadModel (tx : Transaction E) (order : String) (row : OrderRow) : Transaction E :=
  { tx with readModel := tx.readModel ++ [(order, row)] }

/-- `Transaction::enqueue`. -/
def enqueue (tx : Transaction E) (job : Job) : Transaction E :=
  { tx with outbox := tx.outbox ++ [job] }

end Transaction

/-- `struct Store`. -/
structure Store (E : Type) where
  records : BTreeMap StreamId (List (Record (Order E)))
  readModel : BTreeMap String OrderRow
  outbox : List Job

namespace Store

/-- `Store::default`. -/
def default : Store E := ⟨∅, ∅, []⟩

/-- `Store::begin`. -/
def begin (_ : Store E) : Transaction E := ⟨[], [], []⟩

/-- `Store::records`. -/
def recordsOf (store : Store E) (stream : StreamId) : List (Record (Order E)) :=
  store.records[stream]?.getD []

/-- `entry(stream).or_default().push(record)`. -/
def push (store : Store E) (append : StreamId × Record (Order E)) : Store E :=
  { store with records :=
      store.records.insert append.1 (store.records[append.1]?.getD [] ++ [append.2]) }

/-- `read_model.insert(order, row)`. -/
def insert (store : Store E) (entry : String × OrderRow) : Store E :=
  { store with readModel := store.readModel.insert entry.1 entry.2 }

/-- `Store::commit`. -/
def commit (store : Store E) (tx : Transaction E) : Store E :=
  let store := tx.appends.foldl push store
  let store := tx.readModel.foldl insert store
  { store with outbox := store.outbox ++ tx.outbox }

end Store

instance : Journal (Store E) (Order E) (Transaction E) where
  appendIn store tx stream events entropyPos :=
    let tx := { tx with appends := tx.appends ++ [(stream, ⟨events, entropyPos⟩)] }
    let staged := (tx.appends.filter fun append => append.1 = stream).length
    (.ok ((store.recordsOf stream).length + staged), store, tx)
  snapshotIn store tx _ _ := (.ok (), store, tx)
  entropyPos store stream seq :=
    if seq = 0 then .ok 0
    else
      match (store.recordsOf stream)[seq - 1]? with
      | none => .error (.unknownSeq seq)
      | some record => .ok record.entropyPos
  head store stream :=
    let records := store.recordsOf stream
    if records.isEmpty then none else some records.length
  eventsSince store stream after :=
    .ok ((((store.recordsOf stream).zipIdx.drop (after.getD 0)).flatMap fun numbered =>
        numbered.1.events.map fun event => (numbered.2 + 1, event)).map
      fun tagged => VersionedEvent.new tagged.2 tagged.1 (Order E).eventTypeName 1)
  latestSnapshot _ _ := .ok (some ⟨placed, 0, 0, 0⟩)

/-! ## The persistent loop -/

/-- What a call of `ship` leaves behind. -/
structure Shipped (E : Type) where
  result : Except (ExecuteError (Order E)) (Option Nat)
  store : Store E
  order : Aggregate (Order E)
  ctx : (Order E).Ctx

/-- `ship`: the append, the projection and the confirmation in one transaction. -/
def ship [EntropySource E] (store : Store E) (stream : StreamId) (order : Aggregate (Order E))
    (id carrier : String) (ctx : (Order E).Ctx) (failTheTransaction : Bool) : Shipped E :=
  match executeIn store store.begin stream order (.ship carrier) ctx with
  | ⟨.error error, store, _, ctx⟩ => ⟨.error error, store, order, ctx⟩
  | ⟨.ok pending, store, tx, ctx⟩ =>
    let tx := tx.upsertReadModel id ⟨"shipped", some carrier⟩
    let tx := tx.enqueue (.shipmentConfirmation id carrier)
    if failTheTransaction then ⟨.ok none, store, order, pending.abort ctx⟩
    else
      let store := store.commit tx
      let (seq, order) := pending.commit order
      ⟨.ok (some seq), store, order, ctx⟩

end Ironstate.Examples.Outbox
