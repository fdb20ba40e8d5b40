import Ironstate.Examples.Outbox
import Ironstate.Journal.Staged

/-!
# One transaction, three tables

The store is a journal that stages its appends, so everything proved of those holds of it. A
call of `ship` is then described once (`ship_spec`), and over every run of calls, for any
orders and carriers, failed or committed, the log, the read model, the outbox and the live
order agree on the one shipment of each order there is (`run_tells`).
-/

namespace Ironstate.Examples.Outbox

open StagingJournal (appendIn_result headPos_eq)

variable {E : Type}

/-! ## The store stages its appends -/

namespace Store

/-- The journal in the store, as the one whose transaction holds appends only. -/
def journal (store : Store E) : StagedJournal (Order E) := ⟨store.records, placed⟩

theorem records_insert (entries : List (String × OrderRow)) (store : Store E) :
    (entries.foldl insert store).records = store.records := by
  induction entries generalizing store with
  | nil => rfl
  | cons entry entries ih => exact ih (store.insert entry)

theorem journal_push (appends : List (StreamId × Record (Order E))) (store : Store E) :
    (appends.foldl push store).journal = appends.foldl StagedJournal.push store.journal := by
  induction appends generalizing store with
  | nil => rfl
  | cons append appends ih => exact ih (store.push append)

theorem journal_commit (store : Store E) (tx : Transaction E) :
    (store.commit tx).journal = store.journal.commit ⟨tx.appends⟩ := by
  have kept := records_insert tx.readModel (tx.appends.foldl push store)
  rw [StagedJournal.commit, ← journal_push]
  exact congrArg (fun records => StagedJournal.mk records placed) kept

end Store

instance : StagingJournal (Store E) (Order E) (Transaction E) where
  beginTx := ⟨[], [], []⟩
  commitTx := Store.commit
  committed := Store.recordsOf
  staged tx := StagedJournal.stagedFor ⟨tx.appends⟩
  staged_beginTx _ := rfl
  committed_commitTx store tx stream := by
    have committed := StagedJournal.records_commit store.journal ⟨tx.appends⟩ stream
    rw [← Store.journal_commit] at committed
    exact committed
  appendIn_result store tx stream events pos :=
    StagingJournal.appendIn_result store.journal ⟨tx.appends⟩ stream events pos
  appendIn_committed _ _ _ _ _ _ := rfl
  appendIn_staged _ tx stream events pos other :=
    StagedJournal.stagedFor_append ⟨tx.appends⟩ stream other ⟨events, pos⟩
  head_eq store stream := by
    show (if (store.recordsOf stream).isEmpty then none else _) = _
    cases store.recordsOf stream with
    | nil => rfl
    | cons record later => simp
  entropyPos_eq := by
    intro store stream seq positive bound
    have nonzero : seq ≠ 0 := by omega
    obtain ⟨index, rfl⟩ : ∃ index, seq = index + 1 := ⟨seq - 1, by omega⟩
    have present := List.getElem?_eq_getElem (show index < (store.recordsOf stream).length by omega)
    simp only [Journal.entropyPos, if_neg nonzero, Nat.add_one_sub_one, posAt, present,
      Option.map_some, Option.getD_some]
  eventsSince_eq store stream := StagedJournal.eventsSince_none store.journal stream

/-- A stream of the store is resumed to the end of its records. -/
theorem resume_store (chacha12 : Seed → UInt64 → UInt32) (store : Store E) (id : String)
    (seed : Seed) :
    (resume store id seed : Resumed (Order E) chacha12) =
      .ok (⟨stateAfter placed (store.recordsOf id) (store.recordsOf id).length⟩,
        .at seed (posAt (store.recordsOf id) (store.recordsOf id).length)) := by
  have events : Journal.eventsSince store id (some 0) =
      .ok (eventsAfter (store.recordsOf id) 0) := StagingJournal.eventsSince_eq store id
  have replayed : replay (⟨placed, 0, 0, 0⟩ : Snapshot (Order E)) _ = _ :=
    replay_eventsAfter placed (store.recordsOf id) rfl
  have latest : Journal.latestSnapshot store id = .ok (some ⟨placed, 0, 0, 0⟩) := rfl
  unfold resume
  simp only [latest, events, replayed]
  rw [StagingJournal.head_eq]
  by_cases empty : (committed store id).length > 0
  · rw [if_pos empty]
    simp only [StagingJournal.entropyPos_eq store id _ empty (Nat.le_refl _)]
    rfl
  · have none : (store.recordsOf id).length = 0 := Nat.eq_zero_of_not_pos empty
    rw [if_neg empty, none, posAt_zero]

/-! ## One call -/

section Ship

variable [EntropySource E]

/-- What `ship` does with an order that is still placed: roll back, with nothing changed, or
commit all it staged. -/
theorem ship_placed (store : Store E) (stream : StreamId) (id carrier : String)
    (ctx : (Order E).Ctx) (fails : Bool) :
    ∃ pos ctx', ship store stream ⟨placed⟩ id carrier ctx fails =
      if fails then ⟨.ok none, store, ⟨placed⟩, ctx'⟩
      else ⟨.ok (some ((store.recordsOf stream).length + 1)),
        store.commit ⟨[(stream, ⟨[.shipped carrier], pos⟩)], [(id, ⟨"shipped", some carrier⟩)],
          [.shipmentConfirmation id carrier]⟩, ⟨⟨.shipped, some carrier⟩⟩, ctx'⟩ := by
  have decided : Aggregate.decideOnly (A := Order E) ⟨placed⟩ (.ship carrier) ctx =
      (.ok [.shipped carrier], ctx) := rfl
  have head := headPos_eq store stream
  have appended : ∀ pos, Journal.appendIn store store.begin stream [Event.shipped carrier]
      pos = (.ok ((store.recordsOf stream).length + 1), store,
        ⟨[(stream, ⟨[.shipped carrier], pos⟩)], [], []⟩) :=
    fun pos => Prod.ext (appendIn_result store store.begin stream [Event.shipped carrier] pos) rfl
  unfold ship executeIn prepare
  simp only [head, decided, appended]
  cases fails with
  | true => exact ⟨0, _, rfl⟩
  | false => exact ⟨_, _, rfl⟩

/-- An order that has shipped is refused, with nothing changed. -/
theorem ship_shipped (store : Store E) (stream : StreamId) (id carrier carrier' : String)
    (ctx : (Order E).Ctx) (fails : Bool) :
    ∃ ctx', ship store stream ⟨⟨.shipped, some carrier'⟩⟩ id carrier ctx fails =
      ⟨.error (.rejected (.domain (.notShippable .shipped))), store,
        ⟨⟨.shipped, some carrier'⟩⟩, ctx'⟩ := by
  have decided : Aggregate.decideOnly (A := Order E) ⟨⟨.shipped, some carrier'⟩⟩ (.ship carrier)
      ctx = (.error (.domain (.notShippable .shipped)), ctx) := rfl
  have head := headPos_eq store stream
  unfold ship executeIn prepare
  simp only [head, decided]
  exact ⟨_, rfl⟩

end Ship

/-! ## Runs -/

/-- The store and the live order of each stream; an order's stream is named after it. -/
structure Shop (E : Type) where
  store : Store E
  orders : String → Aggregate (Order E)

/-- One call of `ship`. -/
structure Shipment (E : Type) where
  id : String
  carrier : String
  ctx : (Order E).Ctx
  fails : Bool

/-- The jobs of one order. -/
def jobsOf (id : String) (jobs : List Job) : List Job :=
  jobs.filter fun (.shipmentConfirmation order _) => order == id

/-- The log, the read model, the outbox and the live order all say that an order has shipped
with this carrier, once, or all that it has not. -/
structure Shop.Tells (shop : Shop E) (id : String) (carrier : Option String) : Prop where
  order : shop.orders id = ⟨match carrier with
    | none => placed
    | some carrier => ⟨.shipped, some carrier⟩⟩
  records : (shop.store.recordsOf id).map (·.events) = carrier.toList.map fun carrier =>
    [Event.shipped carrier]
  readModel : shop.store.readModel[id]? = carrier.map fun carrier => ⟨"shipped", some carrier⟩
  outbox : jobsOf id shop.store.outbox = carrier.toList.map (.shipmentConfirmation id)

theorem Shop.tells_open (id : String) :
    (⟨.default, fun _ => ⟨placed⟩⟩ : Shop E).Tells id none := by
  have untouched : (Store.default : Store E).records[id]? = none := Std.ExtTreeMap.getElem?_empty
  refine ⟨rfl, ?_, Std.ExtTreeMap.getElem?_empty, rfl⟩
  show List.map _ ((Store.default : Store E).records[id]?.getD []) = []
  rw [untouched]
  rfl

theorem Shop.Tells.of_unchanged {shop shop' : Shop E} {id : String} {carrier : Option String}
    (tells : shop.Tells id carrier) (store : shop'.store = shop.store)
    (order : shop'.orders id = shop.orders id) : shop'.Tells id carrier :=
  ⟨order.trans tells.order, store ▸ tells.records, store ▸ tells.readModel, store ▸ tells.outbox⟩

/-- What is committed for one order: its record, its row and its job. -/
def shipmentTx (id carrier : String) (pos : DrawPos) : Transaction E :=
  ⟨[(id, ⟨[Event.shipped carrier], pos⟩)], [(id, ⟨"shipped", some carrier⟩)],
    [.shipmentConfirmation id carrier]⟩

section Tables

variable (store : Store E) (id carrier : String) (pos : DrawPos)

theorem recordsOf_commit (other : String) :
    (store.commit (shipmentTx id carrier pos)).recordsOf other = store.recordsOf other ++
      if other = id then [⟨[Event.shipped carrier], pos⟩] else [] := by
  show (store.records.insert id (store.records[id]?.getD [] ++ _))[other]?.getD [] = _
  by_cases here : other = id
  · subst here
    rw [BTreeMap.getElem?_insert_self, if_pos rfl]
    rfl
  · rw [BTreeMap.getElem?_insert_ne _ _ here, if_neg here, List.append_nil]
    rfl

theorem readModel_commit (other : String) :
    (store.commit (shipmentTx id carrier pos)).readModel[other]? =
      if other = id then some ⟨"shipped", some carrier⟩ else store.readModel[other]? := by
  show (store.readModel.insert id _)[other]? = _
  by_cases here : other = id
  · subst here
    rw [BTreeMap.getElem?_insert_self, if_pos rfl]
  · rw [BTreeMap.getElem?_insert_ne _ _ here, if_neg here]

theorem jobsOf_commit (other : String) :
    jobsOf other (store.commit (shipmentTx id carrier pos)).outbox = jobsOf other store.outbox ++
      if other = id then [.shipmentConfirmation id carrier] else [] := by
  show jobsOf other (store.outbox ++ [.shipmentConfirmation id carrier]) = _
  rw [jobsOf, List.filter_append, jobsOf, List.filter_cons, List.filter_nil]
  by_cases here : other = id
  · simp [here]
  · simp [here, Ne.symm here]

end Tables

/-- All four of the order that ships move. -/
theorem Shop.Tells.commit {shop shop' : Shop E} {id carrier : String} {pos : DrawPos}
    (tells : shop.Tells id none)
    (store : shop'.store = shop.store.commit (shipmentTx id carrier pos))
    (order : shop'.orders id = ⟨⟨.shipped, some carrier⟩⟩) : shop'.Tells id (some carrier) := by
  refine ⟨order, ?_, ?_, ?_⟩
  · rw [store, recordsOf_commit, if_pos rfl, List.map_append, tells.records]
    rfl
  · rw [store, readModel_commit, if_pos rfl]
    rfl
  · rw [store, jobsOf_commit, if_pos rfl, tells.outbox]
    rfl

/-- None of the four of another order does. -/
theorem Shop.Tells.commit_ne {shop shop' : Shop E} {id other carrier : String} {pos : DrawPos}
    {shipped : Option String} (tells : shop.Tells other shipped) (distinct : other ≠ id)
    (store : shop'.store = shop.store.commit (shipmentTx id carrier pos))
    (order : shop'.orders other = shop.orders other) : shop'.Tells other shipped := by
  refine ⟨order.trans tells.order, ?_, ?_, ?_⟩
  · rw [store, recordsOf_commit, if_neg distinct, List.append_nil, tells.records]
  · rw [store, readModel_commit, if_neg distinct, tells.readModel]
  · rw [store, jobsOf_commit, if_neg distinct, List.append_nil, tells.outbox]

/-- The first shipment of an order that does not fail. -/
def carrierOf (shipments : List (Shipment E)) (id : String) : Option String :=
  (shipments.find? fun s => s.id = id && !s.fails).map (·.carrier)

theorem carrierOf_append (shipments : List (Shipment E)) (s : Shipment E) (id : String) :
    carrierOf (shipments ++ [s]) id =
      (carrierOf shipments id).or
        (if s.id = id ∧ s.fails = false then some s.carrier else none) := by
  unfold carrierOf
  rw [List.find?_append, List.find?_singleton]
  cases shipments.find? fun s => s.id = id && !s.fails with
  | some first => rfl
  | none =>
    by_cases here : s.id = id ∧ s.fails = false
    · simp [here.1, here.2]
    · cases fails : s.fails <;> simp_all

section Runs

variable [EntropySource E]

/-- What a shipment answers, and the shop after it. -/
def Shop.ship (shop : Shop E) (s : Shipment E) :
    Except (ExecuteError (Order E)) (Option Nat) × Shop E :=
  let shipped := Outbox.ship shop.store s.id (shop.orders s.id) s.id s.carrier s.ctx s.fails
  (shipped.result,
    ⟨shipped.store, fun id => if id = s.id then shipped.order else shop.orders id⟩)

/-- A shop that has opened, after some shipments. -/
def Shop.run (shipments : List (Shipment E)) : Shop E :=
  shipments.foldl (fun shop s => (shop.ship s).2) ⟨.default, fun _ => ⟨placed⟩⟩

/-- What a shipment must answer where its order has shipped with this carrier, or not. -/
def answerTo (s : Shipment E) : Option String → Except (ExecuteError (Order E)) (Option Nat)
  | some _ => .error (.rejected (.domain (OrderError.notShippable .shipped)))
  | none => .ok (if s.fails then none else some 1)

variable {shop : Shop E}

theorem Shop.ship_tells {carriers : String → Option String}
    (tells : ∀ id, shop.Tells id (carriers id)) (s : Shipment E) :
    (shop.ship s).1 = answerTo s (carriers s.id) ∧
      ∀ id, (shop.ship s).2.Tells id ((carriers id).or
        (if s.id = id ∧ s.fails = false then some s.carrier else none)) := by
  have order := (tells s.id).order
  unfold Shop.ship
  cases known : carriers s.id with
  | some carrier =>
    rw [known] at order
    obtain ⟨ctx', refused⟩ := ship_shipped shop.store s.id s.id s.carrier carrier s.ctx s.fails
    simp only [order, refused]
    refine ⟨rfl, fun id => ?_⟩
    by_cases here : s.id = id
    · subst here
      rw [known]
      exact (known ▸ tells s.id).of_unchanged rfl ((if_pos rfl).trans order.symm)
    · rw [if_neg (fun both => here both.1), Option.or_none]
      exact (tells id).of_unchanged rfl (if_neg (Ne.symm here))
  | none =>
    rw [known] at order
    obtain ⟨pos, ctx', shipped⟩ := ship_placed shop.store s.id s.id s.carrier s.ctx s.fails
    have first : (shop.store.recordsOf s.id).length = 0 := by
      have records := congrArg List.length (tells s.id).records
      rw [known, List.length_map] at records
      exact records
    simp only [order, shipped, first, answerTo]
    cases fails : s.fails with
    | true =>
      -- rolled back
      refine ⟨rfl, fun id => ?_⟩
      simp only [Bool.true_eq_false, and_false, if_false, Option.or_none, if_true]
      by_cases here : id = s.id
      · subst here
        exact (tells s.id).of_unchanged rfl ((if_pos rfl).trans order.symm)
      · exact (tells id).of_unchanged rfl (if_neg here)
    | false =>
      refine ⟨rfl, fun id => ?_⟩
      simp only [Bool.false_eq_true, if_false, and_true]
      by_cases here : s.id = id
      · subst here
        rw [known, if_pos rfl]
        exact Shop.Tells.commit (known ▸ tells s.id) rfl (if_pos rfl)
      · rw [if_neg here, Option.or_none]
        exact (tells id).commit_ne (Ne.symm here) rfl (if_neg (Ne.symm here))

theorem Shop.tells_run (shipments : List (Shipment E)) (id : String) :
    (Shop.run shipments).Tells id (carrierOf shipments id) := by
  induction shipments using List.reverseRecOn generalizing id with
  | nil => exact Shop.tells_open id
  | append_singleton shipments s ih =>
    rw [carrierOf_append]
    unfold Shop.run
    rw [List.foldl_append, List.foldl_cons, List.foldl_nil]
    exact (Shop.ship_tells ih s).2 id

/-- A process that resumes an order from the store has the live one. -/
theorem Shop.resume_run (chacha12 : Seed → UInt64 → UInt32) (shipments : List (Shipment E))
    (id : String) (seed : Seed) :
    ∃ pos, headPos (Shop.run shipments).store id = .ok pos ∧
      (resume (Shop.run shipments).store id seed : Resumed (Order E) chacha12) =
        .ok ((Shop.run shipments).orders id, .at seed pos) := by
  have tells := Shop.tells_run shipments id
  refine ⟨_, headPos_eq _ id, ?_⟩
  have state : ∀ records : List (Record (Order E)),
      stateAfter (A := Order E) placed records records.length =
        Lib.stateAt (Order E).evolve placed (records.map (·.events))
          (records.map (·.events)).length := by
    intro records
    rw [List.length_map]
    rfl
  rw [resume_store, tells.order, state, tells.records]
  cases carrierOf shipments id with
  | none => rfl
  | some carrier => rfl

/-- After any shipments of any orders, committed or failed: each order has been shipped by the
first one that did not fail, exactly once in every table and in the live order, which is the one
a process resumes; and the next shipment answers accordingly. -/
theorem Shop.run_consistent (chacha12 : Seed → UInt64 → UInt32) (shipments : List (Shipment E)) :
    (∀ id, (Shop.run shipments).Tells id (carrierOf shipments id) ∧
      ∀ seed, ∃ pos, headPos (Shop.run shipments).store id = .ok pos ∧
        (resume (Shop.run shipments).store id seed : Resumed (Order E) chacha12) =
          .ok ((Shop.run shipments).orders id, .at seed pos)) ∧
      ∀ s, ((Shop.run shipments).ship s).1 = answerTo s (carrierOf shipments s.id) :=
  ⟨fun id => ⟨Shop.tells_run shipments id, Shop.resume_run chacha12 shipments id⟩,
    fun s => (Shop.ship_tells (Shop.tells_run shipments) s).1⟩

end Runs

end Ironstate.Examples.Outbox
