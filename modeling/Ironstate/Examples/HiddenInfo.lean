import Ironstate.Aggregate.Leak

/-!
# The `hidden-info` example

`examples/hidden-info`: a match whose hands, decks and secrets are redacted per participant. Every
draw goes through `draw_range`, which a source may override; it is a parameter. Arithmetic on
`turn` wraps where the source would stop, which no match from `MatchState::new` comes to.
-/

namespace Ironstate.Examples.HiddenInfo

abbrev ParticipantId := UInt32

/-! ## The phase machine -/

/-- `enum MatchPhase`. -/
inductive MatchPhase where
  | setup
  | playing
  | resolved
  deriving DecidableEq

/-- `enum PhaseStep`. -/
inductive PhaseStep where
  | start
  | finish
  deriving DecidableEq

instance : EventKind PhaseStep where
  kinds _ := none
  variantName
    | .start => "Start"
    | .finish => "Finish"
  eventVariants := [.start, .finish]

instance : StateMachine MatchPhase where
  Event := PhaseStep
  transition
    | .setup, .start => some .playing
    | .playing, .finish => some .resolved
    | _, _ => none
  initial := .setup
  isTerminal phase := phase == .resolved
  restriction
    | .playing => some [⟨"play"⟩, ⟨"system"⟩]
    | _ => none
  stateVariants := [.setup, .playing, .resolved]
  variantName
    | .setup => "Setup"
    | .playing => "Playing"
    | .resolved => "Resolved"

/-! ## The hidden values -/

/-- `struct Hand`. -/
structure Hand where
  cards : List UInt8
  deriving DecidableEq

/-- `struct HandPublic`. -/
structure HandPublic where
  count : UInt8
  deriving DecidableEq

instance : Conceal Hand := ⟨HandPublic, fun hand => ⟨UInt8.ofNat hand.cards.length⟩⟩

instance : DecidableEq (Concealed Hand) := inferInstanceAs (DecidableEq HandPublic)

/-- `struct Deck`. -/
structure Deck where
  cards : List UInt8
  deriving DecidableEq

/-- `struct DeckPublic`. -/
structure DeckPublic where
  count : UInt8
  deriving DecidableEq

instance : Conceal Deck := ⟨DeckPublic, fun deck => ⟨UInt8.ofNat deck.cards.length⟩⟩

instance : DecidableEq (Concealed Deck) := inferInstanceAs (DecidableEq DeckPublic)

/-- `struct Secret`: others learn nothing. -/
structure Secret where
  token : UInt32
  deriving DecidableEq

instance : Conceal Secret := ⟨Unit, fun _ => ()⟩

instance : DecidableEq (Concealed Secret) := inferInstanceAs (DecidableEq Unit)

/-! ## The aggregate -/

/-- `enum Command`. -/
inductive Command where
  | join (who : ParticipantId)
  | draw (who : ParticipantId)
  | playCard (who : ParticipantId)
  | endTurn (who : ParticipantId)
  | timeout
  deriving DecidableEq

instance : EventKind Command where
  kinds
    | .join _ => none
    | .draw _ | .playCard _ | .endTurn _ => some [⟨"play"⟩]
    | .timeout => some [⟨"system"⟩]
  variantName
    | .join _ => "Join"
    | .draw _ => "Draw"
    | .playCard _ => "PlayCard"
    | .endTurn _ => "EndTurn"
    | .timeout => "Timeout"
  eventVariants := [.join 0, .draw 0, .playCard 0, .endTurn 0, .timeout]

/-- `enum MatchEvent`. -/
inductive MatchEvent where
  | joined (who : ParticipantId)
  | started
  | drew (who : ParticipantId) (card : UInt8)
  | played (who : ParticipantId) (card : UInt8)
  | turnEnded
  | resolved
  deriving DecidableEq

/-- `enum MatchError`. -/
inductive MatchError where
  | notSetup
  | notPlaying
  | notYourTurn
  | alreadyJoined
  | emptyHand
  deriving DecidableEq

/-- `struct MatchState`. -/
structure MatchState where
  phase : MatchPhase
  board : List UInt8
  participants : List ParticipantId
  turn : UInt32
  hands : PerPrincipal ParticipantId Hand
  fabrication : Owned ParticipantId Secret
  decks : PerPrincipal ParticipantId Deck

namespace MatchState

/-- `MatchState::new`. -/
def new : MatchState := ⟨.setup, [], [], 0, ⟨∅⟩, ⟨0, ⟨0⟩⟩, ⟨∅⟩⟩

/-- `MatchState::active`. -/
def active (state : MatchState) : Option ParticipantId :=
  state.participants[state.turn.toNat % max state.participants.length 1]?

/-- `MatchState::require_turn`. -/
def requireTurn (state : MatchState) (who : ParticipantId) : Except MatchError Unit :=
  if state.phase ≠ .playing then .error .notPlaying
  else if state.active ≠ some who then .error .notYourTurn
  else .ok ()

section Rules

variable {E : Type} (range : UInt64 → UInt64 → E → UInt64 × E)

/-- `decide`. -/
def decide (state : MatchState) (cmd : Command) (ctx : OwnedDeterministicCtx E ParticipantId) :
    Except MatchError (List MatchEvent) × OwnedDeterministicCtx E ParticipantId :=
  match cmd with
  | .join who =>
    if state.phase ≠ .setup then (.error .notSetup, ctx)
    else if state.participants.contains who then (.error .alreadyJoined, ctx)
    else
      let events := [.joined who]
      if state.participants.length + 1 ≥ 2 then (.ok (events ++ [.started]), ctx)
      else (.ok events, ctx)
  | .draw who =>
    match state.requireTurn who with
    | .error error => (.error error, ctx)
    | .ok () =>
      let (card, entropy) := range 0 52 ctx.entropy
      (.ok [.drew who card.toUInt8], { ctx with entropy := entropy })
  | .playCard who =>
    match state.requireTurn who with
    | .error error => (.error error, ctx)
    | .ok () =>
      match (state.hands.get who).bind fun hand => hand.cards.head? with
      | none => (.error .emptyHand, ctx)
      | some card => (.ok [.played who card], ctx)
  | .endTurn who =>
    match state.requireTurn who with
    | .error error => (.error error, ctx)
    | .ok () => (.ok [.turnEnded], ctx)
  | .timeout =>
    if state.phase ≠ .playing then (.error .notPlaying, ctx)
    else (.ok [.resolved], ctx)

/-- `hand.cards.push(*card)`, for the hand of `who` if there is one. -/
def pushCard (hands : PerPrincipal ParticipantId Hand) (who : ParticipantId) (card : UInt8) :
    PerPrincipal ParticipantId Hand :=
  match hands.get who with
  | some hand => hands.insert who ⟨hand.cards ++ [card]⟩
  | none => hands

/-- `hand.cards.remove(pos)`, for the first such card of the hand of `who`. -/
def removeCard (hands : PerPrincipal ParticipantId Hand) (who : ParticipantId) (card : UInt8) :
    PerPrincipal ParticipantId Hand :=
  match hands.get who with
  | some hand =>
    match hand.cards.findIdx? (· == card) with
    | some pos => hands.insert who ⟨hand.cards.eraseIdx pos⟩
    | none => hands
  | none => hands

/-- `evolve`. -/
def evolve (state : MatchState) : MatchEvent → MatchState
  | .joined p =>
    { state with
      participants := state.participants ++ [p]
      hands := state.hands.insert p ⟨[]⟩
      decks := state.decks.insert p ⟨[0, 1, 2, 3, 4]⟩ }
  | .started => { state with phase := .playing }
  | .drew who card => { state with hands := pushCard state.hands who card }
  | .played who card =>
    { state with hands := removeCard state.hands who card, board := state.board ++ [card] }
  | .turnEnded =>
    let len := UInt32.ofNat (max state.participants.length 1)
    { state with turn := (state.turn + 1) % len }
  | .resolved => { state with phase := .resolved }

end Rules

/-- What `derive(Redact)` reads of the struct. -/
def redact : Redacted ParticipantId where
  input :=
    { attrs := [⟨"redact", .list [.principal ParticipantId]⟩]
      data := .named
        [⟨"phase", [], .plain MatchPhase⟩, ⟨"board", [], .plain (List UInt8)⟩,
          ⟨"participants", [], .plain (List ParticipantId)⟩, ⟨"turn", [], .plain UInt32⟩,
          ⟨"hands", [⟨"hidden", .path⟩], .perPrincipal Hand inferInstance⟩,
          ⟨"fabrication", [⟨"hidden", .path⟩], .owned Secret inferInstance⟩,
          ⟨"decks", [⟨"hidden", .list [.conceal]⟩], .perPrincipal Deck inferInstance⟩] }
  rules :=
    [(.public, .plain MatchPhase), (.public, .plain (List UInt8)),
      (.public, .plain (List ParticipantId)), (.public, .plain UInt32),
      (.hiddenOwner, .perPrincipal Hand inferInstance),
      (.hiddenOwner, .owned Secret inferInstance),
      (.hiddenConceal, .perPrincipal Deck inferInstance)]
  fields :=
    [.public MatchPhase, .public (List UInt8), .public (List ParticipantId), .public UInt32,
      .hiddenPerPrincipal Hand inferInstance, .hiddenOwned Secret inferInstance,
      .hiddenConceal (PerPrincipal ParticipantId Deck) inferInstance]
  accepted := rfl
  compiles := rfl

/-- The fields of a state, in order. -/
def fields (state : MatchState) : StateOf ParticipantId redact.fields :=
  (state.phase, state.board, state.participants, state.turn, state.hands, state.fabrication,
    state.decks, ())

instance : View ParticipantId MatchState where
  Output := ViewOf ParticipantId redact.fields
  viewFor state viewer := View.viewFor state.fields viewer

end MatchState

/-- The rules of `MatchState`. -/
abbrev Match {E : Type} (range : UInt64 → UInt64 → E → UInt64 × E) : AggregateRules where
  State := MatchState
  Phase := MatchPhase
  Command := Command
  Event := MatchEvent
  Error := MatchError
  Ctx := OwnedDeterministicCtx E ParticipantId
  phase state := state.phase
  decide := MatchState.decide range
  evolve := MatchState.evolve
  eventTypeName := "hidden_info::MatchEvent"

section Instances

variable {E : Type} {range : UInt64 → UInt64 → E → UInt64 × E}

instance : CtxEntropy (Match range).Ctx E :=
  inferInstanceAs (CtxEntropy (OwnedDeterministicCtx E ParticipantId) E)

instance : View ParticipantId (Match range).State := inferInstanceAs (View ParticipantId MatchState)

/-- The fields of a view that are not public. -/
abbrev HiddenView : Type :=
  PerPrincipalView ParticipantId Hand × OwnedView Secret × BTreeMap ParticipantId (Concealed Deck) ×
    Unit

set_option synthInstance.maxSize 1024 in
instance : DecidableEq HiddenView := inferInstance

instance : DecidableEq (View.Output ParticipantId (Match range).State) :=
  inferInstanceAs (DecidableEq (MatchPhase × List UInt8 × List ParticipantId × UInt32 × HiddenView))

end Instances

/-! ## The test inputs -/

/-- `invariants`. -/
def invariants {E : Type} (range : UInt64 → UInt64 → E → UInt64 × E) :
    List (AggregateInvariant (Match range)) :=
  [⟨"the board only grows", fun before _ after =>
    decide ((MatchState.board after).length ≥ (MatchState.board before).length)⟩]

section Inputs

variable {chacha12 : Seed → UInt64 → UInt32} {R : Type}
variable (range : UInt64 → UInt64 → SeededEntropy chacha12 → UInt64 × SeededEntropy chacha12)

/-- `impl AggregateArbitrary for MatchState`; `prop_oneof!`, which draws one of some weighted
values, is third-party code. -/
def arbitrary (oneOf : List (Nat × Command) → R → Option (Command × R)) :
    AggregateArbitrary (Match range) R chacha12 where
  initialStateStrategy runner := some (MatchState.new, runner)
  commandStrategy state runner :=
    match MatchState.phase state with
    | .setup =>
      let who := UInt32.ofNat (MatchState.participants state).length
      some (.join who, runner)
    | .playing =>
      let who := (MatchState.active state).getD 0
      oneOf [(5, .draw who), (3, .playCard who), (3, .endTurn who), (1, .timeout)] runner
    | .resolved => some (.timeout, runner)
  testCtx entropy step := ⟨entropy, 0, step⟩

/-- `for card in &mut hand.cards { *card = entropy.draw_range(0..52) as u8; }`. -/
def resampleCards : List UInt8 → SeededEntropy chacha12 → List UInt8 × SeededEntropy chacha12
  | [], entropy => ([], entropy)
  | _ :: cards, entropy =>
    let (card, entropy) := range 0 52 entropy
    let (cards, entropy) := resampleCards cards entropy
    (card.toUInt8 :: cards, entropy)

/-- `resample_hidden`. -/
def resampleHidden (state : MatchState) (principal : ParticipantId)
    (entropy : SeededEntropy chacha12) : MatchState :=
  let (hands, entropy) :=
    match state.hands.get principal with
    | some hand =>
      let (cards, entropy) := resampleCards range hand.cards entropy
      (state.hands.insert principal ⟨cards⟩, entropy)
    | none => (state.hands, entropy)
  let fabrication :=
    if state.fabrication.owner == principal then ⟨principal, ⟨(drawU64 entropy).1.toUInt32⟩⟩
    else state.fabrication
  { state with hands := hands, fabrication := fabrication }

/-- `impl LeakTestable for MatchState`, over any inputs. -/
def leakTestable (inputs : AggregateArbitrary (Match range) R chacha12) :
    LeakTestable (Match range) ParticipantId R chacha12 :=
  { inputs with
    principals := MatchState.participants
    resampleHidden := resampleHidden range }

end Inputs

end Ironstate.Examples.HiddenInfo
