import Ironstate.Aggregate.Proofs.Passing
import Ironstate.Aggregate.Proofs.Range
import Ironstate.Examples.CatalogCtx
import Ironstate.Journal.Proofs.Erasure

/-!
# What a chest gives

Each item has its weight in accepted words of the stream (`drawItem_chance`). Whatever is gambled and
lost on the way, the loot of a turn is that of the control run which never gambles
(`turn_matches_control`).
-/

namespace Ironstate.Examples.CatalogCtx

/-! ## The catalogue -/

/-- The weights of the entries of one item. -/
def weightOf (item : UInt16) (entries : List Entry) : Nat :=
  weights (entries.filter fun entry => entry.item == item)

namespace Catalog

theorem weights_cons (entry : Entry) (entries : List Entry) :
    weights (entry :: entries) = entry.weight.toNat + weights entries := by
  simp [weights]

theorem weightOf_cons (item : UInt16) (entry : Entry) (entries : List Entry) :
    weightOf item (entry :: entries) =
      (if entry.item = item then entry.weight.toNat else 0) + weightOf item entries := by
  unfold weightOf
  by_cases same : entry.item = item
  · simp [same, weights_cons]
  · simp [same]

/-- Of the picks inside the buckets, each item has as many as it has weight. -/
theorem count_bucketOf (item : UInt16) (entries : List Entry) (acc : UInt64)
    (fits : acc.toNat + weights entries < 2 ^ 64) :
    Nat.count (fun k => (bucketOf (.ofNat (acc.toNat + k)) acc entries).map Entry.item =
      some item) (weights entries) = weightOf item entries := by
  induction entries generalizing acc with
  | nil => rfl
  | cons entry entries ih =>
    rw [weights_cons] at fits
    have sum : (acc + entry.weight).toNat = acc.toNat + entry.weight.toNat := by
      rw [UInt64.toNat_add]
      exact Nat.mod_eq_of_lt (by omega)
    have below : ∀ k, k < entry.weight.toNat + weights entries →
        (UInt64.ofNat (acc.toNat + k) < acc + entry.weight ↔ k < entry.weight.toNat) := by
      intro k inside
      have value : (UInt64.ofNat (acc.toNat + k)).toNat = acc.toNat + k :=
        Nat.mod_eq_of_lt (by omega)
      rw [UInt64.lt_iff_toNat_lt, sum, value]
      omega
    rw [weights_cons, Nat.count_add, weightOf_cons]
    congr 1
    · -- the picks of the first bucket
      have here := Lib.count_congr (fun k => (bucketOf (.ofNat (acc.toNat + k)) acc
        (entry :: entries)).map Entry.item = some item) (fun _ => entry.item = item)
        (n := entry.weight.toNat) ?_
      · rw [here]
        by_cases same : entry.item = item
        · rw [if_pos same, Nat.count_of_forall fun _ _ => same]
        · rw [if_neg same, Nat.count_of_forall_not fun _ _ => same]
      · intro k inside
        simp only [bucketOf, if_pos ((below k (by omega)).mpr inside), Option.map_some,
          Option.some.injEq]
    · rw [← ih (acc + entry.weight) (by omega)]
      apply Lib.count_congr
      intro k inside
      have past : ¬UInt64.ofNat (acc.toNat + (entry.weight.toNat + k)) < acc + entry.weight := by
        rw [below _ (by omega)]
        omega
      simp only [bucketOf, if_neg past, sum, Nat.add_assoc]

/-- A pick inside the buckets finds one. -/
theorem bucketOf_inside {pick : UInt64} {entries : List Entry} {acc : UInt64}
    (fits : acc.toNat + weights entries < 2 ^ 64) (past : acc ≤ pick)
    (inside : pick.toNat < acc.toNat + weights entries) :
    ∃ entry ∈ entries, bucketOf pick acc entries = some entry := by
  induction entries generalizing acc with
  | nil => exact absurd inside (Nat.not_lt_of_le (UInt64.le_iff_toNat_le.mp past))
  | cons entry entries ih =>
    rw [weights_cons] at fits inside
    have sum : (acc + entry.weight).toNat = acc.toNat + entry.weight.toNat := by
      rw [UInt64.toNat_add]
      exact Nat.mod_eq_of_lt (by omega)
    by_cases here : pick < acc + entry.weight
    · exact ⟨entry, List.mem_cons_self, if_pos here⟩
    · obtain ⟨found, member, later⟩ := @ih (acc + entry.weight) (by omega)
        (UInt64.not_lt.mp here) (by omega)
      exact ⟨found, List.mem_cons_of_mem _ member, (if_neg here).trans later⟩

theorem fits (catalog : Catalog) : (0 : UInt64).toNat + weights catalog.entries < 2 ^ 64 := by
  rw [catalog.summed]
  exact (Nat.zero_add _).trans_lt catalog.total.toNat_lt

theorem itemAt_iff (catalog : Catalog) {pick : UInt64} (inside : pick < catalog.total)
    (item : UInt16) :
    catalog.itemAt pick = item ↔
      (bucketOf pick 0 catalog.entries).map Entry.item = some item := by
  have inside : pick.toNat < (0 : UInt64).toNat + weights catalog.entries := by
    rw [catalog.summed]
    exact (UInt64.lt_iff_toNat_lt.mp inside).trans_eq (Nat.zero_add _).symm
  obtain ⟨entry, -, found⟩ := bucketOf_inside catalog.fits (UInt64.zero_le) inside
  simp only [itemAt, found, Option.map_some, Option.some.injEq]

/-- Of the words that are accepted, each item has its share by weight. -/
theorem card_item (catalog : Catalog) {bits : Nat} {mask : UInt64}
    (covers : Covers bits catalog.totalWeight)
    (kept : ∀ word : UInt64, (word &&& mask).toNat = word.toNat % 2 ^ bits) (item : UInt16) :
    Nat.card {word : UInt64 // word &&& mask < catalog.totalWeight ∧
        catalog.itemAt (word &&& mask) = item} =
      2 ^ (64 - bits) * weightOf item catalog.entries := by
  let chosen (k : Nat) : Prop := k < catalog.total.toNat ∧
    (bucketOf (.ofNat k) 0 catalog.entries).map Entry.item = some item
  have counted : Nat.count chosen (2 ^ bits) = weightOf item catalog.entries := by
    obtain ⟨rest, whole⟩ : ∃ rest, 2 ^ bits = catalog.total.toNat + rest :=
      Nat.exists_eq_add_of_le covers.covers
    have past : Nat.count (fun k => chosen (catalog.total.toNat + k)) rest = 0 :=
      Nat.count_of_forall_not fun k _ inside => absurd inside.1 (by omega)
    have all := count_bucketOf item catalog.entries 0 catalog.fits
    rw [catalog.summed] at all
    rw [whole, Nat.count_add, past, ← all, Nat.add_zero]
    apply Lib.count_congr
    intro k inside
    simp only [chosen, inside, true_and, UInt64.toNat_zero, Nat.zero_add]
  rw [← counted, ← card_kept covers.fits kept chosen]
  apply Nat.card_congr
  refine Equiv.subtypeEquivRight fun word => ?_
  show _ ↔ chosen (word &&& mask).toNat
  simp only [chosen, UInt64.ofNat_toNat, ← UInt64.lt_iff_toNat_lt]
  exact and_congr_right fun inside => itemAt_iff catalog inside item

end Catalog

/-! ## What a command can do -/

section Decide

variable {E : Type} (range : UInt64 → UInt64 → E → UInt64 × E)

/-- The commands that `decide` accepts. -/
inductive Decides (chest : ChestState) (ctx : TurnCtx E) :
    Command → List ChestEvent → TurnCtx E → Prop
  | opened (fresh : chest.phase = .sealed) : Decides chest ctx .open [.opened] ctx
  | dropped {cmd : Command} (live : chest.phase = .open) (left : chest.drawsLeft ≠ 0) :
      Decides chest ctx cmd [.dropped (drawItem range ctx.catalog ctx.entropy).1]
        { ctx with entropy := (drawItem range ctx.catalog ctx.entropy).2 }
  | closed (live : chest.phase = .open) : Decides chest ctx .close [.closed] ctx

variable {range}

theorem decide_ok {chest : ChestState} {cmd : Command} {ctx drawn : TurnCtx E}
    {events : List ChestEvent} (decided : chest.decide range cmd ctx = (.ok events, drawn)) :
    Decides range chest ctx cmd events drawn := by
  unfold ChestState.decide at decided
  cases cmd with
  | «open» =>
    dsimp only at decided
    split at decided
    · cases decided
    · rename_i fresh
      cases decided
      exact .opened (not_not.mp fresh)
  | draw =>
    dsimp only at decided
    split at decided
    · cases decided
    rename_i live
    split at decided
    · cases decided
    · rename_i left
      cases decided
      exact .dropped (not_not.mp live) left
  | gamble =>
    dsimp only at decided
    split at decided
    · cases decided
    rename_i live
    split at decided
    · cases decided
    rename_i left
    split at decided
    · cases decided
      exact .dropped (not_not.mp live) left
    · cases decided
  | close =>
    dsimp only at decided
    split at decided
    · cases decided
    · rename_i live
      cases decided
      exact .closed (not_not.mp live)

/-- `decide` draws once or not at all. -/
theorem decide_draws (chest : ChestState) (cmd : Command) (ctx : TurnCtx E) :
    (chest.decide range cmd ctx).2 = ctx ∨
      (chest.decide range cmd ctx).2 =
        { ctx with entropy := (drawItem range ctx.catalog ctx.entropy).2 } := by
  unfold ChestState.decide
  cases cmd with
  | «open» => exact .inl (by dsimp only; split <;> rfl)
  | close => exact .inl (by dsimp only; split <;> rfl)
  | draw =>
    dsimp only
    split
    · exact .inl rfl
    split
    · exact .inl rfl
    · exact .inr rfl
  | gamble =>
    dsimp only
    split
    · exact .inl rfl
    split
    · exact .inl rfl
    · exact .inr (by split <;> rfl)

/-- One draw spent of those left. -/
theorem spend_one {drawsLeft : UInt32} (left : drawsLeft ≠ 0) :
    0 < drawsLeft.toNat ∧ (drawsLeft - 1).toNat = drawsLeft.toNat - 1 := by
  have positive : 0 < drawsLeft.toNat := Nat.pos_of_ne_zero fun zero =>
    left (UInt32.toNat_inj.mp zero)
  exact ⟨positive, UInt32.toNat_sub_of_le _ _ (UInt32.le_iff_toNat_le.mpr positive)⟩

/-- Every hop is legal, and a drop adds one item and spends one draw. -/
theorem steps_sound {chest : ChestState} {cmd : Command} {events : List ChestEvent}
    {ctx drawn : TurnCtx E} (decides : Decides range chest ctx cmd events drawn) :
    ∀ step ∈ steps (A := Chest range) chest events, SoundStep (invariants range) step := by
  cases decides with
  | opened fresh =>
    rintro _ (_ | ⟨_, ⟨⟩⟩)
    refine ⟨?_, fun invariant declared => ?_⟩
    · show legalHop chest.phase ChestPhase.open = true
      rw [fresh]
      decide
    · cases List.mem_singleton.mp declared
      rfl
  | dropped live left =>
    rintro _ (_ | ⟨_, ⟨⟩⟩)
    refine ⟨if_pos BEq.rfl, fun invariant declared => ?_⟩
    cases List.mem_singleton.mp declared
    obtain ⟨positive, spends⟩ := spend_one left
    simp only [ChestState.evolve, if_neg left, spends, List.length_append, List.length_singleton,
      beq_self_eq_true, Bool.true_and, beq_iff_eq]
    omega
  | closed live =>
    rintro _ (_ | ⟨_, ⟨⟩⟩)
    refine ⟨?_, fun invariant declared => ?_⟩
    · show legalHop chest.phase ChestPhase.spent = true
      rw [live]
      decide
    · cases List.mem_singleton.mp declared
      rfl

variable [EntropySource E]

/-- A range draws words of the stream and does nothing else to it. -/
def DrawsWords (range : UInt64 → UInt64 → E → UInt64 × E) : Prop :=
  ∀ start stop e, ∃ n, (range start stop e).2 = drawWords n e

theorem drawsForward (words : DrawsWords range) : DrawsForward (Chest range) := by
  intro chest cmd ctx
  rcases decide_draws chest cmd ctx with unmoved | moved
  · exact ⟨0, unmoved.trans (drawnCtx_zero ctx).symm⟩
  · obtain ⟨n, drawn⟩ := words 0 ctx.catalog.totalWeight ctx.entropy
    refine ⟨n, moved.trans ?_⟩
    show { ctx with entropy := (range 0 ctx.catalog.totalWeight ctx.entropy).2 } = _
    rw [drawn]
    rfl

/-- The loop of `draw_range` draws words of the stream. -/
theorem rangeLoop_draws {start span mask value : UInt64} {fuel : Nat} {e e' : E}
    (answered : rangeLoop start span mask fuel e = .ok (some (value, e'))) :
    ∃ n, e' = drawWords n e := by
  induction fuel generalizing e with
  | zero => cases answered
  | succ fuel ih =>
    rw [rangeLoop] at answered
    dsimp only at answered
    split at answered
    · obtain ⟨sum, -, same⟩ := Lib.bind_eq_ok answered
      cases same
      exact ⟨1, rfl⟩
    · obtain ⟨n, drawn⟩ := ih answered
      exact ⟨n + 1, drawn⟩

/-- The `draw_range` of the trait, where it answers within its fuel. -/
def provided (fuel : Nat) (start stop : UInt64) (e : E) : UInt64 × E :=
  match drawRange fuel start stop e with
  | .ok (some answer) => answer
  | _ => (start, e)

/-- `draw_item` answers with the item of the first accepted word of the stream, and of the accepted
words each item has its share by weight. -/
theorem drawItem_chance (catalog : Catalog) :
    ∃ (bits : Nat) (mask : UInt64),
      (∀ (E : Type) [EntropySource E] (fuel k : Nat) (e : E), k < fuel →
        (∀ i < k, ¬wordAt i e &&& mask < catalog.totalWeight) →
        wordAt k e &&& mask < catalog.totalWeight →
        drawItem (provided fuel) catalog e =
          (catalog.itemAt (wordAt k e &&& mask), drawWords (k + 1) e)) ∧
      Nat.card {word : UInt64 // word &&& mask < catalog.totalWeight} =
        2 ^ (64 - bits) * weights catalog.entries ∧
      ∀ item, Nat.card {word : UInt64 // word &&& mask < catalog.totalWeight ∧
          catalog.itemAt (word &&& mask) = item} =
        2 ^ (64 - bits) * weightOf item catalog.entries := by
  obtain ⟨bits, mask, covers, kept, uniform⟩ := drawRange_uniform catalog.positive
  have first := uniform.first
  rw [UInt64.sub_zero] at covers
  simp only [UInt64.sub_zero, UInt64.zero_add] at first
  refine ⟨bits, mask, ?_, ?_, catalog.card_item covers kept⟩
  · intro E _ fuel k e enough rejected accepted
    unfold drawItem provided
    rw [Catalog.totalWeight, first E fuel k e enough rejected accepted]
  · rw [catalog.summed]
    exact card_accepted covers kept

theorem drawsWords_provided (fuel : Nat) : DrawsWords (provided (E := E) fuel) := by
  intro start stop e
  unfold provided
  split
  · rename_i answer answered
    obtain ⟨_, -, answered⟩ := Lib.bind_eq_ok answered
    obtain ⟨_, -, answered⟩ := Lib.bind_eq_ok answered
    obtain ⟨_, -, answered⟩ := Lib.bind_eq_ok answered
    obtain ⟨_, -, answered⟩ := Lib.bind_eq_ok answered
    exact rangeLoop_draws answered
  · exact ⟨0, rfl⟩

end Decide

/-! ## A turn -/

section Turn

variable {chacha12 : Seed → UInt64 → UInt32}
variable {range : UInt64 → UInt64 → SeededEntropy chacha12 → UInt64 × SeededEntropy chacha12}
variable {J : Type} [Journal J (Chest range) Unit] [ContractJournal J (Chest range)]
variable [KeepsHistory J (Chest range)] {catalog : Catalog} {seed : Seed}

variable (range catalog) in
/-- The first items that a stream holds, and where it stands after them. -/
def drawItems (e : SeededEntropy chacha12) : Nat → List UInt16 × SeededEntropy chacha12
  | 0 => ([], e)
  | n + 1 =>
    let (items, e) := drawItems e n
    let (item, e) := drawItem range catalog e
    (items ++ [item], e)

/-- Items are drawn from the stream of the one seed. -/
theorem drawItems_at (words : DrawsWords range) (n : Nat) :
    ∃ pos, (drawItems range catalog (.fromSeed seed) n).2 = .at seed pos := by
  induction n with
  | zero => exact ⟨0, rfl⟩
  | succ n ih =>
    obtain ⟨pos, stood⟩ := ih
    obtain ⟨count, drawn⟩ := words 0 catalog.totalWeight (.at seed pos)
    obtain ⟨pos', reached⟩ : ∃ pos', drawWords count (.at seed pos : SeededEntropy chacha12) =
      .at seed pos' := SeededEntropy.drawWords_at count seed pos
    refine ⟨pos', ?_⟩
    show (range 0 catalog.totalWeight (drawItems range catalog _ n).2).2 = _
    rw [stood, drawn, reached]

variable (range catalog seed) in
/-- A chest whose loot is the first items of the stream of the seed, one for each draw spent. -/
structure Spent (chest : ChestState) (ctx : TurnCtx (SeededEntropy chacha12)) : Prop where
  loot : chest.loot = (drawItems range catalog (.fromSeed seed) chest.loot.length).1
  ctx : ctx = ⟨catalog, (drawItems range catalog (.fromSeed seed) chest.loot.length).2, 1, 0⟩
  «sealed» : chest.phase = .sealed → chest.loot = []
  opened : chest.phase ≠ .sealed → chest.drawsLeft.toNat + chest.loot.length = 8

theorem Spent.fresh :
    Spent range catalog seed .sealed ⟨catalog, .fromSeed seed, 1, 0⟩ :=
  ⟨rfl, rfl, fun _ => rfl, fun opened => absurd rfl opened⟩

/-- Whatever is accepted, the chest has one more item for one more draw of the stream. -/
theorem Spent.decides {chest : ChestState} {cmd : Command} {events : List ChestEvent}
    {ctx drawn : TurnCtx (SeededEntropy chacha12)} (spent : Spent range catalog seed chest ctx)
    (decides : Decides range chest ctx cmd events drawn) :
    Spent range catalog seed (events.foldl ChestState.evolve chest) drawn := by
  cases decides with
  | opened fresh =>
    have bare := spent.sealed fresh
    refine ⟨spent.loot, spent.ctx, nofun, fun _ => ?_⟩
    show 8 + chest.loot.length = 8
    rw [bare]
    rfl
  | dropped live left =>
    obtain ⟨loot, rfl, -, opened⟩ := spent
    let item := drawItem range catalog (drawItems range catalog (.fromSeed seed) chest.loot.length).2
    have next : drawItems range catalog (.fromSeed seed) (chest.loot ++ [item.1]).length =
        (chest.loot ++ [item.1], item.2) := by
      rw [List.length_append, List.length_singleton]
      exact Prod.ext (congrArg (· ++ [item.1]) loot.symm) rfl
    obtain ⟨positive, spends⟩ := spend_one left
    refine ⟨(congrArg Prod.fst next).symm, ?_, fun fresh => ?_, fun _ => ?_⟩
    · show (⟨catalog, item.2, 1, 0⟩ : TurnCtx _) =
        ⟨catalog, (drawItems range catalog _ (chest.loot ++ [item.1]).length).2, 1, 0⟩
      rw [next]
    · cases live.symm.trans fresh
    · have before := opened (by rw [live]; nofun)
      show (if chest.drawsLeft = 0 then 0 else chest.drawsLeft - 1).toNat +
        (chest.loot ++ [item.1]).length = 8
      rw [if_neg left, spends, List.length_append, List.length_singleton]
      omega
  | closed live => exact ⟨spent.loot, spent.ctx, nofun, fun _ => spent.opened (by rw [live]; nofun)⟩

variable (catalog seed) in
/-- A turn between two commands. -/
structure InTurn (history : StreamId → List (Record (Chest range))) (live : Live (Chest range) J) :
    Prop where
  holds : KeepsHistory.Holds ChestState.sealed history live.journal
  stands : StandsAtEnd history stream live.ctx
  state : live.aggregate =
    ⟨stateAfter .sealed (history stream) (history stream).length⟩
  spent : Spent range catalog seed live.aggregate.state live.ctx

theorem InTurn.fresh : InTurn catalog seed (fun _ => []) (freshTurn range catalog seed : Live _ J) :=
  ⟨KeepsHistory.fresh _, rfl, rfl, Spent.fresh⟩

/-- A command is rejected, and the turn is as it was, or its events are appended. -/
theorem InTurn.execute {history : StreamId → List (Record (Chest range))}
    {live : Live (Chest range) J} (words : DrawsWords range)
    (inTurn : InTurn catalog seed history live) (cmd : Command) :
    (∃ rejection, (live.aggregate.decideOnly cmd live.ctx).1 = .error rejection ∧
      execute live.journal stream live.aggregate cmd live.ctx =
        ⟨.error (.rejected rejection), live.journal, live.aggregate, live.ctx⟩) ∨
    ∃ events seq journal drawn history',
      Decides range live.aggregate.state live.ctx cmd events drawn ∧
      execute live.journal stream live.aggregate cmd live.ctx =
        ⟨.ok seq, journal, ⟨events.foldl ChestState.evolve live.aggregate.state⟩, drawn⟩ ∧
      InTurn catalog seed history'
        ⟨journal, ⟨events.foldl ChestState.evolve live.aggregate.state⟩, drawn⟩ := by
  rcases execute_cases (drawsForward words) inTurn.holds stream inTurn.stands cmd with
    rejected | ⟨events, drawn, pos, journal, decided, made, holds, stands⟩
  · exact .inl rejected
  · have decides := decide_ok (Aggregate.decideOnly_ok_iff.mp decided).2
    refine .inr ⟨events, _, journal, drawn, _, decides, made, holds, stands, ?_,
      inTurn.spent.decides decides⟩
    rw [pushTo_self, List.length_append, List.length_singleton, stateAfter_push, inTurn.state]

/-- Any commands leave a turn. -/
theorem InTurn.run (words : DrawsWords range) (commands : List Command)
    {history : StreamId → List (Record (Chest range))} {live : Live (Chest range) J}
    (inTurn : InTurn catalog seed history live) :
    ∃ history', InTurn catalog seed history' (executeEach stream commands live).2 := by
  induction commands generalizing history live with
  | nil => exact ⟨history, inTurn⟩
  | cons cmd commands ih =>
    rcases inTurn.execute words cmd with
      ⟨rejection, -, rejected⟩ | ⟨events, seq, journal, drawn, history', -, made, next⟩
    · rw [executeEach_cons rejected]
      exact ih inTurn
    · rw [executeEach_cons made]
      exact ih next

/-! ## The control run -/

/-- A step that passes the phase and `decide` is taken. -/
theorem InTurn.step {history : StreamId → List (Record (Chest range))}
    {live : Live (Chest range) J} (words : DrawsWords range)
    (inTurn : InTurn catalog seed history live) {cmd : Command}
    (accepted : ∃ events, (live.aggregate.decideOnly cmd live.ctx).1 = .ok events) :
    ∃ events drawn live' history', Decides range live.aggregate.state live.ctx cmd events drawn ∧
      step range cmd live = .ok live' ∧
      live'.aggregate.state = events.foldl ChestState.evolve live.aggregate.state ∧
      InTurn catalog seed history' live' := by
  obtain ⟨events, accepted⟩ := accepted
  rcases inTurn.execute words cmd with
    ⟨rejection, decided, -⟩ | ⟨events, seq, journal, drawn, history', decides, made, next⟩
  · rw [accepted] at decided
    cases decided
  · refine ⟨events, drawn, _, history', decides, ?_, rfl, next⟩
    unfold CatalogCtx.step
    rw [made]

theorem decideOnly_open {chest : Aggregate (Chest range)}
    (fresh : chest.state.phase = .sealed) (ctx : TurnCtx (SeededEntropy chacha12)) :
    chest.decideOnly .open ctx = (.ok [.opened], ctx) := by
  obtain ⟨_, drawsLeft, loot⟩ := chest
  cases fresh
  rfl

theorem decideOnly_draw {chest : Aggregate (Chest range)} (opened : chest.state.phase = .open)
    (left : chest.state.drawsLeft ≠ 0) (ctx : TurnCtx (SeededEntropy chacha12)) :
    chest.decideOnly .draw ctx = (.ok [.dropped (drawItem range ctx.catalog ctx.entropy).1],
      { ctx with entropy := (drawItem range ctx.catalog ctx.entropy).2 }) := by
  obtain ⟨_, drawsLeft, loot⟩ := chest
  cases opened
  exact Aggregate.decideOnly_ok_iff.mpr ⟨rfl, if_neg left⟩

/-- With draws left, an open chest gives one more item. -/
theorem InTurn.draw {history : StreamId → List (Record (Chest range))}
    {live : Live (Chest range) J} (words : DrawsWords range)
    (inTurn : InTurn catalog seed history live) (opened : live.aggregate.state.phase = .open)
    (left : live.aggregate.state.loot.length < 8) :
    ∃ live' history', CatalogCtx.step range .draw live = .ok live' ∧
      InTurn catalog seed history' live' ∧ live'.aggregate.state.phase = .open ∧
      live'.aggregate.state.loot.length = live.aggregate.state.loot.length + 1 := by
  have spends := inTurn.spent.opened (by rw [opened]; nofun)
  have positive : live.aggregate.state.drawsLeft ≠ 0 := by
    intro zero
    rw [zero, UInt32.toNat_zero] at spends
    omega
  obtain ⟨events, drawn, live', history', decides, made, evolved, next⟩ :=
    inTurn.step words ⟨_, congrArg Prod.fst (decideOnly_draw opened positive live.ctx)⟩
  refine ⟨live', history', made, next, ?_⟩
  cases decides with
  | dropped _ _ =>
    rw [evolved]
    exact ⟨opened, List.length_append⟩

theorem InTurn.drawTimes (words : DrawsWords range) (draws : Nat)
    {history : StreamId → List (Record (Chest range))}
    {live : Live (Chest range) (MemoryJournal (Chest range))}
    (inTurn : InTurn catalog seed history live) (opened : live.aggregate.state.phase = .open)
    (left : live.aggregate.state.loot.length + draws ≤ 8) :
    ∃ live' history', CatalogCtx.drawTimes range draws live = .ok live' ∧
      InTurn catalog seed history' live' ∧
      live'.aggregate.state.loot.length = live.aggregate.state.loot.length + draws := by
  induction draws generalizing history live with
  | zero => exact ⟨live, history, rfl, inTurn, rfl⟩
  | succ draws ih =>
    obtain ⟨live', history', made, next, opened', longer⟩ := inTurn.draw words opened (by omega)
    obtain ⟨final, history'', rest, ended, length⟩ := ih next opened' (by omega)
    refine ⟨final, history'', ?_, ended, by omega⟩
    rw [CatalogCtx.drawTimes, made]
    exact rest

/-- The control run takes the first items of the stream. -/
theorem straightRun_eq (words : DrawsWords range) {draws : Nat} (bound : draws ≤ 8) :
    straightRun range catalog seed draws = .ok (drawItems range catalog (.fromSeed seed) draws).1 := by
  have fresh : InTurn catalog seed _
    (freshTurn range catalog seed : Live _ (MemoryJournal (Chest range))) := .fresh
  obtain ⟨events, drawn, live, history, decides, made, evolved, inTurn⟩ :=
    fresh.step words ⟨_, congrArg Prod.fst (decideOnly_open rfl _)⟩
  have opened : live.aggregate.state.phase = .open ∧ live.aggregate.state.loot = [] := by
    cases decides with
    | opened _ =>
      rw [evolved]
      exact ⟨rfl, rfl⟩
    | dropped closed _ => cases closed
  obtain ⟨final, history', drew, ended, length⟩ :=
    inTurn.drawTimes words draws opened.1 (by rw [opened.2]; simpa using bound)
  rw [opened.2, List.length_nil, Nat.zero_add] at length
  unfold straightRun
  rw [made, Lib.ok_bind, drew, Lib.ok_bind, ended.spent.loot, length]

theorem InTurn.length_le {history : StreamId → List (Record (Chest range))}
    {live : Live (Chest range) J} (inTurn : InTurn catalog seed history live) :
    live.aggregate.state.loot.length ≤ 8 := by
  by_cases fresh : live.aggregate.state.phase = .sealed
  · rw [inTurn.spent.sealed fresh]
    exact Nat.zero_le 8
  · have spends := inTurn.spent.opened fresh
    omega

theorem InTurn.resume {history : StreamId → List (Record (Chest range))}
    {live : Live (Chest range) J} (words : DrawsWords range)
    (inTurn : InTurn catalog seed history live) :
    resume live.journal stream seed = .ok (live.aggregate, live.ctx.entropy) := by
  obtain ⟨pos, stood⟩ : ∃ pos, (drawItems range catalog (.fromSeed seed)
    live.aggregate.state.loot.length).2 = .at seed pos := drawItems_at words _
  have entropy : live.ctx.entropy = .at seed pos := by rw [inTurn.spent.ctx, stood]
  have position : pos = posAt (history stream) (history stream).length := by
    have stands : some (draws live.ctx.entropy) = some _ := inTurn.stands
    rw [entropy] at stands
    exact Option.some.inj stands
  rw [KeepsHistory.resume inTurn.holds, entropy, position, ← inTurn.state]

/-- Whatever commands a turn is made of, lost gambles among them, its loot is what the control run
takes in as many draws; and the log alone gives back the chest and the place in the stream. -/
theorem turn_matches_control (words : DrawsWords range) (commands : List Command) :
    let live := (executeEach stream commands
      (freshTurn range catalog seed : Live (Chest range) J)).2
    let loot := live.aggregate.state.loot
    loot.length ≤ 8 ∧ straightRun range catalog seed loot.length = .ok loot ∧
      resume live.journal stream seed = .ok (live.aggregate, live.ctx.entropy) := by
  obtain ⟨history, inTurn⟩ := InTurn.run words commands
    (.fresh : InTurn catalog seed _ (freshTurn range catalog seed : Live (Chest range) J))
  refine ⟨inTurn.length_le, ?_, inTurn.resume words⟩
  rw [straightRun_eq words inTurn.length_le, ← inTurn.spent.loot]

end Turn

/-- Over a stream of zeros every item is a copper coin, and the gamble between two draws is lost. -/
theorem turn_matches_control_gambler :
    let range := provided (E := SeededEntropy fun _ _ => 0) 1
    let seed : Seed := ⟨.replicate 32 7⟩
    let commands : List Command := [.open, .draw, .gamble, .draw]
    let live := (executeEach stream commands
      (freshTurn range .standard seed : Live _ (MemoryJournal (Chest range)))).2
    let loot := live.aggregate.state.loot
    loot.length ≤ 8 ∧ straightRun range .standard seed loot.length = .ok loot ∧
      resume live.journal stream seed = .ok (live.aggregate, live.ctx.entropy) :=
  turn_matches_control (drawsWords_provided 1) _

/-- Draws from a stream of zeros. -/
def coppers : UInt64 → UInt64 → SeededEntropy (fun _ _ => 0) →
    UInt64 × SeededEntropy (fun _ _ => 0) :=
  provided 1

/-- A turn on that stream, before its first command. -/
def copperTurn : Live (Chest coppers) (MemoryJournal (Chest coppers)) :=
  freshTurn coppers .standard ⟨.replicate 32 7⟩

/-- A gamble between two draws. -/
def gambler : List (Chest coppers).Command :=
  [Command.open, Command.draw, Command.gamble, Command.draw]

/-- The gamble draws before it is lost, and leaves no trace. -/
theorem executeEach_erase_gambler :
    let before := (executeEach stream (gambler.take 2) copperTurn).2
    let ran := executeEach stream gambler copperTurn
    let kept := acceptedOf ran.1 gambler
    (ctxDraws before.ctx = some 2 ∧
      ctxDraws (before.aggregate.decideOnly Command.gamble before.ctx).2 = some 4 ∧
      kept = [Command.open, Command.draw, Command.draw]) ∧
      executeEach stream kept copperTurn = ((List.range' 1 kept.length).map .ok, ran.2) ∧
      ran.1.filter (fun answer => answer.isOk) = (List.range' 1 kept.length).map .ok := by
  refine ⟨⟨rfl, rfl, rfl⟩, ?_⟩
  have holds : KeepsHistory.Holds ChestState.sealed (fun _ => []) copperTurn.journal :=
    KeepsHistory.fresh _
  exact executeEach_erase (drawsForward (drawsWords_provided 1)) holds stream rfl gambler

/-- `test!(Chest)` passes, whatever `prop_oneof!` picks of the commands it is given. -/
theorem runTest_chest {chacha12 : Seed → UInt64 → UInt32} {R : Type}
    (range : UInt64 → UInt64 → SeededEntropy chacha12 → UInt64 × SeededEntropy chacha12)
    {oneOf : List (Nat × Command) → R → Option (Command × R)}
    (total : ∀ choices runner, choices ≠ [] → oneOf choices runner ≠ none)
    (seededRunner : UInt64 → R) (params : DriveParams) :
    runTest (arbitrary range oneOf) seededRunner params (invariants range) = .ok () := by
  have gapless : ¬(arbitrary range oneOf).Gap := by
    rintro (none | none)
    · cases none
    · exact total _ _ (List.cons_ne_nil _ _) none
  refine runTest_gapless gapless (fun aggregate input step listed => ?_) seededRunner params
  rcases aggregate.emitted_cases input with nothing | ⟨-, decided⟩
  · rw [nothing] at listed
    cases listed
  · exact steps_sound (decide_ok (Prod.ext decided rfl)) step listed

end Ironstate.Examples.CatalogCtx
