import Ironstate.Aggregate.Draws
import Ironstate.Aggregate.Proofs.Leak
import Ironstate.Aggregate.Proofs.Passing
import Ironstate.Aggregate.Proofs.Views
import Ironstate.Examples.HiddenInfo

/-!
# What a match reveals

Two matches that a viewer cannot tell apart, and in which everyone holds as many cards (`Alike`),
take the same commands the same way but for a card that is played: what a viewer learns over any
run is what comes to lie on the board (`views_eq_iff_board`), so that `leak_test!` without
`PlayCard` finds nothing (`runLeak_match`).
-/

namespace Ironstate.Examples.HiddenInfo

open Lib (Yields Unwinding Releasing Apart)
open MatchState (pushCard removeCard)

/-! ## Hands -/

theorem get_insert {T : Type} (store : PerPrincipal ParticipantId T) (key p : ParticipantId)
    (value : T) :
    (store.insert key value).get p = if p = key then some value else store.get p := by
  split
  · rename_i same
    subst same
    exact BTreeMap.getElem?_insert_self _ _ _
  · exact BTreeMap.getElem?_insert_ne _ _ ‹_›

section Hands

variable {hands : PerPrincipal ParticipantId Hand} {who : ParticipantId} {card : UInt8}

theorem get_pushCard (hands : PerPrincipal ParticipantId Hand) (who : ParticipantId) (card : UInt8)
    (p : ParticipantId) :
    (pushCard hands who card).get p =
      if p = who then (hands.get who).map fun hand => ⟨hand.cards ++ [card]⟩ else hands.get p := by
  unfold pushCard
  split
  · rename_i hand held
    rw [held]
    exact get_insert hands who p _
  · rename_i held
    rw [held]
    split
    · rename_i same
      rw [same, held]
      rfl
    · rfl

/-- The card in front is the first of its kind. -/
theorem get_removeCard {cards : List UInt8} (held : hands.get who = some ⟨card :: cards⟩)
    (p : ParticipantId) :
    (removeCard hands who card).get p = if p = who then some ⟨cards⟩ else hands.get p := by
  unfold removeCard
  have first : (card :: cards).findIdx? (· == card) = some 0 := by
    rw [List.findIdx?_cons, BEq.rfl, if_pos rfl]
  simp only [held, first]
  exact get_insert hands who p _

end Hands

/-! ## What `decide` emits -/

/-- The commands that are accepted, each with its events. -/
inductive Emits (state : MatchState) : Command → List MatchEvent → Prop
  | join {who : ParticipantId} (setup : state.phase = .setup) (absent : who ∉ state.participants)
      (first : state.participants.length + 1 < 2) : Emits state (.join who) [.joined who]
  | joinStart {who : ParticipantId} (setup : state.phase = .setup)
      (absent : who ∉ state.participants) (last : state.participants.length + 1 ≥ 2) :
      Emits state (.join who) [.joined who, .started]
  | draw {who : ParticipantId} (turn : state.requireTurn who = .ok ()) (card : UInt8) :
      Emits state (.draw who) [.drew who card]
  | play {who : ParticipantId} {card : UInt8} {cards : List UInt8}
      (turn : state.requireTurn who = .ok ()) (held : state.hands.get who = some ⟨card :: cards⟩) :
      Emits state (.playCard who) [.played who card]
  | endTurn {who : ParticipantId} (turn : state.requireTurn who = .ok ()) :
      Emits state (.endTurn who) [.turnEnded]
  | timeout (playing : state.phase = .playing) : Emits state .timeout [.resolved]

theorem Emits.unplayed {state : MatchState} {cmd : Command} {events : List MatchEvent}
    (emits : Emits state cmd events) (other : ∀ who, cmd ≠ .playCard who) :
    ∀ event ∈ events, ∀ who card, event ≠ .played who card := by
  cases emits with
  | play => exact absurd rfl (other _)
  | _ => simp

section Rules

variable {E : Type} {range : UInt64 → UInt64 → E → UInt64 × E}

theorem decide_ok {state : MatchState} {cmd : Command}
    {ctx ctx' : OwnedDeterministicCtx E ParticipantId} {events : List MatchEvent}
    (accepted : state.decide range cmd ctx = (.ok events, ctx')) : Emits state cmd events := by
  unfold MatchState.decide at accepted
  cases cmd with
  | join who =>
    simp only at accepted
    split at accepted
    · cases accepted
    split at accepted
    · cases accepted
    rename_i setup absent
    have setup : state.phase = .setup := not_not.mp setup
    have absent : who ∉ state.participants := by simpa using absent
    split at accepted
    · cases accepted
      exact .joinStart setup absent ‹_›
    · cases accepted
      exact .join setup absent (Nat.lt_of_not_le ‹_›)
  | draw who =>
    simp only at accepted
    split at accepted
    · cases accepted
    · cases accepted
      exact .draw ‹_› _
  | playCard who =>
    simp only at accepted
    split at accepted
    · cases accepted
    split at accepted
    · cases accepted
    · cases accepted
      rename_i turn _ card first
      obtain ⟨⟨hand⟩, held, first⟩ := Option.bind_eq_some_iff.mp first
      obtain ⟨cards, rfl⟩ := List.head?_eq_some_iff.mp first
      exact .play turn held
  | endTurn who =>
    simp only at accepted
    split at accepted
    · cases accepted
    · cases accepted
      exact .endTurn ‹_›
  | timeout =>
    simp only at accepted
    split at accepted
    · cases accepted
    · cases accepted
      exact .timeout (not_not.mp ‹_›)

end Rules

/-! ## Two matches that look alike -/

/-- The viewer sees the same of both matches, and everyone holds as many cards in the one as in the
other: a view shows a count of 256 as none. -/
structure Alike (viewer : ParticipantId) (s t : MatchState) : Prop where
  view : View.viewFor s viewer = View.viewFor t viewer
  sizes : ∀ p, (s.hands.get p).map (·.cards.length) = (t.hands.get p).map (·.cards.length)

/-- The same, field by field. -/
structure Agree (viewer : ParticipantId) (s t : MatchState) : Prop where
  phase : s.phase = t.phase
  board : s.board = t.board
  participants : s.participants = t.participants
  turn : s.turn = t.turn
  own : s.hands.get viewer = t.hands.get viewer
  sizes : ∀ p, (s.hands.get p).map (·.cards.length) = (t.hands.get p).map (·.cards.length)
  fabrication : Owned.Same viewer s.fabrication t.fabrication
  decks : ∀ p, (s.decks.get p).map conceal = (t.decks.get p).map conceal

theorem view_eq_iff_fields (viewer : ParticipantId) (s t : MatchState) :
    View.viewFor s viewer = View.viewFor t viewer ↔
      AllSame viewer MatchState.redact.fields s.fields t.fields :=
  viewFor_eq_iff viewer MatchState.redact.fields s.fields t.fields

theorem alike_iff (viewer : ParticipantId) (s t : MatchState) :
    Alike viewer s t ↔ Agree viewer s t := by
  constructor
  · rintro ⟨view, sizes⟩
    obtain ⟨phase, board, participants, turn, hands, fabrication, decks, _⟩ :=
      (view_eq_iff_fields viewer s t).mp view
    refine ⟨phase, board, participants, turn, hands.own, sizes, fabrication, fun p => ?_⟩
    have residues : s.decks.residues = t.decks.residues := decks
    rw [← PerPrincipal.residues_eq, ← PerPrincipal.residues_eq, residues]
  · rintro ⟨phase, board, participants, turn, own, sizes, fabrication, decks⟩
    refine ⟨(view_eq_iff_fields viewer s t).mpr ⟨phase, board, participants, turn,
      ⟨own, fun p _ => ?_⟩, fabrication, ?_, trivial⟩, sizes⟩
    · have counted := congrArg (Option.map fun size => HandPublic.mk (UInt8.ofNat size)) (sizes p)
      rwa [Option.map_map, Option.map_map] at counted
    · refine Std.ExtTreeMap.ext_getElem? fun p => ?_
      have residue := decks p
      rwa [← PerPrincipal.residues_eq, ← PerPrincipal.residues_eq] at residue

namespace Agree

variable {viewer : ParticipantId} {s t : MatchState}

/-- An event that plays no card tells the viewer nothing new. -/
theorem evolve (agree : Agree viewer s t) (event : MatchEvent)
    (other : ∀ who card, event ≠ .played who card) :
    Agree viewer (s.evolve event) (t.evolve event) := by
  cases event with
  | joined p =>
    refine ⟨agree.phase, agree.board, congrArg (· ++ [p]) agree.participants, agree.turn, ?own, ?sizes,
      agree.fabrication, ?decks⟩
    case own =>
      simp only [MatchState.evolve, get_insert, agree.own]
    case sizes =>
      intro other
      simp only [MatchState.evolve, get_insert]
      split
      · rfl
      · exact agree.sizes other
    case decks =>
      intro other
      simp only [MatchState.evolve, get_insert]
      split
      · rfl
      · exact agree.decks other
  | started => exact { agree with phase := rfl }
  | drew who card =>
    refine { agree with own := ?own, sizes := ?sizes }
    case own =>
      simp only [MatchState.evolve, get_pushCard, agree.own]
      split
      · rename_i same
        rw [← same, agree.own]
      · rfl
    case sizes =>
      intro p
      simp only [MatchState.evolve, get_pushCard]
      split
      · have grown := congrArg (Option.map (· + 1)) (agree.sizes who)
        simpa [Option.map_map, Function.comp_def] using grown
      · exact agree.sizes p
  | played who card => exact absurd rfl (other who card)
  | turnEnded =>
    refine { agree with turn := ?_ }
    simp only [MatchState.evolve, agree.turn, agree.participants]
  | resolved => exact { agree with phase := rfl }

/-- The same card played by the same participant, who holds it in front. -/
theorem played (agree : Agree viewer s t) {who : ParticipantId} {card : UInt8}
    {cards cards' : List UInt8} (held : s.hands.get who = some ⟨card :: cards⟩)
    (held' : t.hands.get who = some ⟨card :: cards'⟩) :
    Agree viewer (s.evolve (.played who card)) (t.evolve (.played who card)) := by
  refine { agree with board := congrArg (· ++ [card]) agree.board, own := ?own, sizes := ?sizes }
  case own =>
    simp only [MatchState.evolve, get_removeCard held, get_removeCard held']
    split
    · rename_i same
      have hands := agree.own
      rw [same, held, held'] at hands
      cases hands
      rfl
    · exact agree.own
  case sizes =>
    intro p
    simp only [MatchState.evolve, get_removeCard held, get_removeCard held']
    split
    · have shrunk := agree.sizes who
      rw [held, held'] at shrunk
      simpa using shrunk
    · exact agree.sizes p

theorem foldl (agree : Agree viewer s t) (events : List MatchEvent)
    (other : ∀ event ∈ events, ∀ who card, event ≠ .played who card) :
    Agree viewer (events.foldl MatchState.evolve s) (events.foldl MatchState.evolve t) := by
  induction events generalizing s t with
  | nil => exact agree
  | cons event events ih =>
    obtain ⟨here, later⟩ := List.forall_mem_cons.mp other
    exact ih (agree.evolve event here) later

theorem requireTurn (agree : Agree viewer s t) (who : ParticipantId) :
    s.requireTurn who = t.requireTurn who := by
  unfold MatchState.requireTurn MatchState.active
  rw [agree.phase, agree.participants, agree.turn]

variable {E : Type} {range : UInt64 → UInt64 → E → UInt64 × E}

/-- What is hidden from the viewer has no say in a command that plays no card. -/
theorem decide_eq (agree : Agree viewer s t) {cmd : Command} (other : ∀ who, cmd ≠ .playCard who)
    (ctx : OwnedDeterministicCtx E ParticipantId) :
    s.decide range cmd ctx = t.decide range cmd ctx := by
  unfold MatchState.decide
  cases cmd with
  | join who => simp only [agree.phase, agree.participants]
  | draw who => simp only [agree.requireTurn]
  | playCard who => exact absurd rfl (other who)
  | endTurn who => simp only [agree.requireTurn]
  | timeout => simp only [agree.phase]

end Agree

section Runs

variable {E : Type} {range : UInt64 → UInt64 → E → UInt64 × E}
variable {viewer : ParticipantId} {s t : MatchState}

theorem emitted_cases (state : MatchState) (input : Command × OwnedDeterministicCtx E ParticipantId) :
    Aggregate.emitted (A := Match range) ⟨state⟩ input = [] ∨
      Emits state input.1 (Aggregate.emitted (A := Match range) ⟨state⟩ input) := by
  rcases Aggregate.emitted_cases (A := Match range) ⟨state⟩ input with none | ⟨_, decided⟩
  · exact .inl none
  · exact .inr (decide_ok (Prod.ext decided rfl))

/-- A command that plays no card keeps two matches alike. -/
theorem Agree.handled (agree : Agree viewer s t) {cmd : Command} (other : ∀ who, cmd ≠ .playCard who)
    (ctx : OwnedDeterministicCtx E ParticipantId) :
    Agree viewer (Aggregate.handled (A := Match range) ⟨s⟩ (cmd, ctx)).state
      (Aggregate.handled (A := Match range) ⟨t⟩ (cmd, ctx)).state := by
  have same : Aggregate.emitted (A := Match range) ⟨s⟩ (cmd, ctx) =
      Aggregate.emitted ⟨t⟩ (cmd, ctx) :=
    Aggregate.emitted_congr agree.phase (congrArg Prod.fst (agree.decide_eq other ctx))
  rw [Aggregate.handled_eq, Aggregate.handled_eq, same]
  refine agree.foldl _ ?_
  rcases emitted_cases t (cmd, ctx) with nothing | emits
  · rw [nothing]
    exact nofun
  · exact emits.unplayed other

theorem emitted_play (state : MatchState) (who : ParticipantId)
    (ctx : OwnedDeterministicCtx E ParticipantId) :
    Aggregate.emitted (A := Match range) ⟨state⟩ (.playCard who, ctx) =
      match state.requireTurn who, (state.hands.get who).bind fun hand => hand.cards.head? with
      | .ok (), some card => [.played who card]
      | _, _ => [] := by
  have decided : (state.decide range (.playCard who) ctx).1 =
      match state.requireTurn who, (state.hands.get who).bind fun hand => hand.cards.head? with
      | .ok (), some card => .ok [.played who card]
      | .ok (), none => .error .emptyHand
      | .error error, _ => .error error := by
    unfold MatchState.decide
    dsimp only
    cases state.requireTurn who with
    | error error => rfl
    | ok => cases (state.hands.get who).bind fun hand => hand.cards.head? <;> rfl
  by_cases playing : state.phase = .playing
  · have checked : (Aggregate.mk (A := Match range) state).structuralCheck (.playCard who) = none := by
      obtain ⟨_, _, _, _, _, _, _⟩ := state
      cases playing
      rfl
    unfold Aggregate.emitted Aggregate.handle
    rw [checked]
    dsimp only
    generalize state.decide range (.playCard who) ctx = answer at decided
    obtain ⟨answer, drawn⟩ := answer
    cases decided
    cases state.requireTurn who with
    | error error => rfl
    | ok => cases (state.hands.get who).bind fun hand => hand.cards.head? <;> rfl
  · have turn : state.requireTurn who = .error .notPlaying := if_pos playing
    rcases emitted_cases state (.playCard who, ctx) with nothing | emits
    · rw [nothing, turn]
    · generalize Aggregate.emitted _ _ = events at emits
      cases emits with
      | play accepted => rw [turn] at accepted; cases accepted

/-- A card that is played keeps two matches alike, or tells them apart on the board. -/
theorem Agree.handled_play (agree : Agree viewer s t) (who : ParticipantId)
    (ctx : OwnedDeterministicCtx E ParticipantId) :
    Agree viewer (Aggregate.handled (A := Match range) ⟨s⟩ (.playCard who, ctx)).state
        (Aggregate.handled (A := Match range) ⟨t⟩ (.playCard who, ctx)).state ∨
      Apart (Aggregate.handled (A := Match range) ⟨s⟩ (.playCard who, ctx)).state.board
        (Aggregate.handled (A := Match range) ⟨t⟩ (.playCard who, ctx)).state.board := by
  rw [Aggregate.handled_eq, Aggregate.handled_eq, emitted_play, emitted_play, agree.requireTurn]
  have sizes := agree.sizes who
  cases t.requireTurn who with
  | error error => exact .inl agree
  | ok =>
    cases held : s.hands.get who with
    | none =>
      rw [held] at sizes
      rw [Option.map_eq_none_iff.mp sizes.symm]
      exact .inl agree
    | some hand =>
      rw [held] at sizes
      obtain ⟨hand', held', same⟩ := Option.map_eq_some_iff.mp sizes.symm
      rw [held']
      obtain ⟨cards⟩ := hand
      obtain ⟨cards'⟩ := hand'
      cases cards with
      | nil =>
        cases List.length_eq_zero_iff.mp same
        exact .inl agree
      | cons card cards =>
        obtain ⟨card', cards', rfl⟩ := List.exists_cons_of_length_eq_add_one same
        by_cases alike : card = card'
        · subst alike
          exact .inl (agree.played held held')
        · refine .inr ?_
          have boards : Apart (s.board ++ [card]) (s.board ++ [card']) := .append alike
          nth_rewrite 2 [agree.board] at boards
          exact boards

theorem board_grows (state : MatchState) (events : List MatchEvent) :
    state.board <+: (events.foldl MatchState.evolve state).board := by
  induction events generalizing state with
  | nil => exact List.prefix_rfl
  | cons event events ih =>
    refine List.IsPrefix.trans ?_ (ih (state.evolve event))
    cases event with
    | played who card => exact List.prefix_append _ _
    | _ => exact List.prefix_rfl

theorem releasing (viewer : ParticipantId) :
    Releasing (Aggregate.handled (A := Match range)) (seenBy viewer)
      (fun aggregate => MatchState.board aggregate.state)
      (fun s t => Agree viewer s.state t.state) where
  seen agree := ((alike_iff viewer _ _).mpr agree).view
  told same := ((view_eq_iff_fields viewer _ _).mp same).2.1
  grows aggregate input := by
    rw [Aggregate.handled_eq]
    exact board_grows aggregate.state _
  kept input agree := by
    obtain ⟨cmd, ctx⟩ := input
    by_cases play : ∃ who, cmd = .playCard who
    · obtain ⟨who, rfl⟩ := play
      exact agree.handled_play who ctx
    · exact .inl (agree.handled (fun who same => play ⟨who, same⟩) ctx)

/-- What a viewer learns over any run of a match is the cards that are played. -/
theorem views_eq_iff_board (viewer : ParticipantId) (s t : MatchState) (alike : Alike viewer s t)
    (inputs : List (Command × OwnedDeterministicCtx E ParticipantId)) :
    (∀ count,
        seenBy viewer
            ((inputs.take count).foldl Aggregate.handled (Aggregate.mk (A := Match range) s)) =
          seenBy viewer
            ((inputs.take count).foldl Aggregate.handled (Aggregate.mk (A := Match range) t))) ↔
      (inputs.foldl Aggregate.handled (Aggregate.mk (A := Match range) s)).state.board =
        (inputs.foldl Aggregate.handled (Aggregate.mk (A := Match range) t)).state.board :=
  (releasing viewer).views_eq_iff ((alike_iff viewer s t).mp alike) inputs

end Runs

/-- A match in play, by the card that participant 1 holds; it is their turn. -/
def midgame (card : UInt8) : MatchState :=
  ⟨.playing, [], [0, 1], 1, (PerPrincipal.mk ∅ |>.insert 0 ⟨[7]⟩ |>.insert 1 ⟨[card]⟩), ⟨0, ⟨0⟩⟩,
    ⟨∅⟩⟩

/-- Participant 0 cannot tell which card participant 1 holds until it is played. -/
theorem views_eq_iff_board_midgame :
    let zeros : Seed → UInt64 → UInt32 := fun _ _ => 0
    let range := fun start stop (e : SeededEntropy zeros) =>
      match drawRange 1 start stop e with
      | .ok (some answer) => answer
      | _ => (start, e)
    let inputs : List (Command × OwnedDeterministicCtx _ ParticipantId) :=
      [(.draw 1, ⟨.fromSeed ⟨.replicate 32 0⟩, 1, 0⟩),
        (.playCard 1, ⟨.fromSeed ⟨.replicate 32 0⟩, 1, 0⟩)]
    Alike 0 (midgame 20) (midgame 21) ∧
      ¬∀ count,
        seenBy (0 : ParticipantId)
            ((inputs.take count).foldl Aggregate.handled
              (Aggregate.mk (A := Match range) (midgame 20))) =
          seenBy 0
            ((inputs.take count).foldl Aggregate.handled
              (Aggregate.mk (A := Match range) (midgame 21))) := by
  intro zeros range inputs
  have alike : Alike 0 (midgame 20) (midgame 21) := by
    refine (alike_iff 0 _ _).mpr ⟨rfl, rfl, rfl, rfl, rfl, fun p => ?_,
      ⟨Iff.rfl, fun _ => rfl, fun _ => rfl⟩, fun _ => rfl⟩
    simp only [midgame, get_insert]
    split <;> rfl
  refine ⟨alike, fun views => ?_⟩
  have boards := (views_eq_iff_board 0 _ _ alike inputs).mp views
  exact absurd boards (by decide)

/-! ## What holds in every match -/

/-- The card of an event in which `p` draws. -/
def drawnBy (p : ParticipantId) : MatchEvent → Option UInt8
  | .drew who card => if who = p then some card else none
  | _ => none

/-- The card of an event in which `p` plays. -/
def playedBy (p : ParticipantId) : MatchEvent → Option UInt8
  | .played who card => if who = p then some card else none
  | _ => none

/-- The card of an event in which someone plays. -/
def playedCard : MatchEvent → Option UInt8
  | .played _ card => some card
  | _ => none

/-- The cards that `p` holds, front first. -/
def cardsOf (hands : PerPrincipal ParticipantId Hand) (p : ParticipantId) : List UInt8 :=
  ((hands.get p).map Hand.cards).getD []

theorem cardsOf_held {hands : PerPrincipal ParticipantId Hand} {p : ParticipantId} {hand : Hand}
    (held : hands.get p = some hand) : cardsOf hands p = hand.cards := by
  rw [cardsOf, held]
  rfl

theorem cardsOf_eq {hands hands' : PerPrincipal ParticipantId Hand} {p : ParticipantId}
    (same : hands.get p = hands'.get p) : cardsOf hands p = cardsOf hands' p := by
  rw [cardsOf, cardsOf, same]

theorem filterMap_snoc (f : MatchEvent → Option UInt8) (past : List MatchEvent)
    (event : MatchEvent) :
    (past ++ [event]).filterMap f = past.filterMap f ++ (f event).toList := by
  rw [List.filterMap_append, List.filterMap_cons]
  cases f event <;> rfl

/-- A match whose events so far are `past`. A hand is a queue: the cards drawn, without those
played, which went first. -/
structure Dealt (past : List MatchEvent) (state : MatchState) : Prop where
  distinct : state.participants.Nodup
  turn : state.turn.toNat < max state.participants.length 1
  hands : ∀ p, state.hands.get p ≠ none ↔ p ∈ state.participants
  decks : ∀ p ∈ state.participants, state.decks.get p = some ⟨[0, 1, 2, 3, 4]⟩
  board : state.board = past.filterMap playedCard
  queue : ∀ p, past.filterMap (drawnBy p) = past.filterMap (playedBy p) ++ cardsOf state.hands p

/-- A match starts with its second participant, and takes no third. -/
structure Sound (past : List MatchEvent) (state : MatchState) : Prop extends Dealt past state where
  waiting : state.phase = .setup → state.participants.length < 2
  started : state.phase ≠ .setup → state.participants.length = 2

theorem sound_new : Sound [] .new := by
  have nobody : ∀ p, MatchState.new.hands.get p = none := fun p => Std.ExtTreeMap.getElem?_empty
  refine ⟨⟨List.nodup_nil, by decide, fun p => ?_, nofun, rfl, fun p => ?_⟩, by decide, by decide⟩
  · rw [nobody p]
    exact iff_of_false (not_not.mpr rfl) List.not_mem_nil
  · rw [cardsOf, nobody p]
    rfl

namespace Dealt

variable {past : List MatchEvent} {state : MatchState}

theorem joined (dealt : Dealt past state) {who : ParticipantId} (absent : who ∉ state.participants) :
    Dealt (past ++ [.joined who]) (state.evolve (.joined who)) where
  distinct := List.nodup_append.mpr ⟨dealt.distinct, List.nodup_cons.mpr ⟨nofun, List.nodup_nil⟩,
    fun p seated other last same =>
      absent (List.mem_singleton.mp last ▸ same ▸ seated)⟩
  turn := by
    have := dealt.turn
    simp only [MatchState.evolve, List.length_append, List.length_singleton]
    omega
  hands p := by
    simp only [MatchState.evolve, get_insert, List.mem_append, List.mem_singleton]
    split
    · simp [*]
    · simp [*, dealt.hands p]
  decks p seated := by
    simp only [MatchState.evolve, get_insert, List.mem_append, List.mem_singleton] at seated ⊢
    split
    · rfl
    · exact dealt.decks p (seated.resolve_right ‹_›)
  board := by
    rw [filterMap_snoc, ← dealt.board]
    exact (List.append_nil _).symm
  queue p := by
    have kept : cardsOf (state.hands.insert who ⟨[]⟩) p = cardsOf state.hands p := by
      by_cases same : p = who
      · have unseated : state.hands.get who = none :=
          not_not.mp ((not_congr (dealt.hands who)).mpr absent)
        rw [same, cardsOf_held ((get_insert _ _ _ _).trans (if_pos rfl)), cardsOf, unseated]
        rfl
      · exact cardsOf_eq ((get_insert _ _ _ _).trans (if_neg same))
    rw [filterMap_snoc, filterMap_snoc, dealt.queue p]
    simp [drawnBy, playedBy, MatchState.evolve, kept]

theorem drew (dealt : Dealt past state) {who : ParticipantId} (seated : who ∈ state.participants)
    (card : UInt8) : Dealt (past ++ [.drew who card]) (state.evolve (.drew who card)) := by
  obtain ⟨hand, held⟩ := Option.ne_none_iff_exists'.mp ((dealt.hands who).mpr seated)
  have pushed := get_pushCard state.hands who card
  rw [held] at pushed
  refine { dealt with hands := fun p => ?hands, board := ?board, queue := fun p => ?queue }
  case hands =>
    refine Iff.trans ?_ (dealt.hands p)
    simp only [MatchState.evolve, pushed]
    split
    · simp [*]
    · rfl
  case board =>
    rw [filterMap_snoc, ← dealt.board]
    exact (List.append_nil _).symm
  case queue =>
    rw [filterMap_snoc, filterMap_snoc, dealt.queue p]
    by_cases same : p = who
    · subst same
      have longer := cardsOf_held ((pushed p).trans (if_pos rfl))
      simp [drawnBy, playedBy, MatchState.evolve, cardsOf_held held, longer]
    · have kept := cardsOf_eq ((pushed p).trans (if_neg same))
      simp [drawnBy, playedBy, Ne.symm same, MatchState.evolve, kept]

theorem played (dealt : Dealt past state) {who : ParticipantId} {card : UInt8} {cards : List UInt8}
    (held : state.hands.get who = some ⟨card :: cards⟩) :
    Dealt (past ++ [.played who card]) (state.evolve (.played who card)) := by
  have removed := get_removeCard held
  refine { dealt with hands := fun p => ?hands, board := ?board, queue := fun p => ?queue }
  case hands =>
    refine Iff.trans ?_ (dealt.hands p)
    simp only [MatchState.evolve, removed]
    split
    · simp [*]
    · rfl
  case board =>
    rw [filterMap_snoc, ← dealt.board]
    rfl
  case queue =>
    rw [filterMap_snoc, filterMap_snoc, dealt.queue p]
    by_cases same : p = who
    · subst same
      have shorter := cardsOf_held ((removed p).trans (if_pos rfl))
      simp [drawnBy, playedBy, MatchState.evolve, cardsOf_held held, shorter]
    · have kept := cardsOf_eq ((removed p).trans (if_neg same))
      simp [drawnBy, playedBy, Ne.symm same, MatchState.evolve, kept]

/-- An event that moves no card and seats nobody. -/
theorem phased (dealt : Dealt past state) {event : MatchEvent}
    (silent : playedCard event = none ∧ ∀ p, drawnBy p event = none ∧ playedBy p event = none)
    (phase : MatchPhase) (turn : UInt32) (inRange : turn.toNat < max state.participants.length 1) :
    Dealt (past ++ [event]) { state with phase := phase, turn := turn } := by
  refine { dealt with turn := inRange, board := ?board, queue := fun p => ?queue }
  case board =>
    rw [filterMap_snoc, ← dealt.board, silent.1]
    exact (List.append_nil _).symm
  case queue =>
    rw [filterMap_snoc, filterMap_snoc, dealt.queue p, (silent.2 p).1, (silent.2 p).2]
    simp

end Dealt

theorem playing_of_turn {state : MatchState} {who : ParticipantId}
    (accepted : state.requireTurn who = .ok ()) :
    state.phase = .playing ∧ state.active = some who := by
  unfold MatchState.requireTurn at accepted
  split at accepted
  · cases accepted
  split at accepted
  · cases accepted
  · exact ⟨not_not.mp ‹_›, not_not.mp ‹_›⟩

namespace Sound

variable {past : List MatchEvent} {state : MatchState}

theorem length_le (sound : Sound past state) : state.participants.length ≤ 2 := by
  by_cases setup : state.phase = .setup
  · have := sound.waiting setup
    omega
  · have := sound.started setup
    omega

theorem turn_lt (sound : Sound past state) (turn : UInt32) :
    (turn % UInt32.ofNat (max state.participants.length 1)).toNat <
      max state.participants.length 1 := by
  have small := sound.length_le
  have exact_len : (UInt32.ofNat (max state.participants.length 1)).toNat =
      max state.participants.length 1 := UInt32.toNat_ofNat_of_lt' (by simp [UInt32.size]; omega)
  rw [UInt32.toNat_mod, exact_len]
  exact Nat.mod_lt _ (by omega)

/-- What an accepted command keeps. -/
theorem emits (sound : Sound past state) {cmd : Command} {events : List MatchEvent}
    (emits : Emits state cmd events) :
    Sound (past ++ events) (events.foldl MatchState.evolve state) := by
  cases emits with
  | join setup absent first =>
    exact { toDealt := sound.toDealt.joined absent
            waiting := fun _ => by simpa [MatchState.evolve] using first
            started := fun begun => absurd setup begun }
  | joinStart setup absent last =>
    have joined := sound.toDealt.joined absent
    have before := sound.waiting setup
    rw [List.append_cons]
    exact { toDealt := joined.phased (by simp [playedCard, drawnBy, playedBy]) .playing _ joined.turn
            waiting := nofun
            started := fun _ => by simp [MatchState.evolve]; omega }
  | draw turn card =>
    obtain ⟨playing, active⟩ := playing_of_turn turn
    exact { toDealt := sound.toDealt.drew (List.mem_of_getElem? active) card
            waiting := sound.waiting, started := sound.started }
  | play turn held =>
    exact { toDealt := sound.toDealt.played held
            waiting := sound.waiting, started := sound.started }
  | endTurn turn =>
    exact { toDealt := sound.toDealt.phased (by simp [playedCard, drawnBy, playedBy]) state.phase _
              (sound.turn_lt _)
            waiting := sound.waiting, started := sound.started }
  | timeout playing =>
    exact { toDealt := sound.toDealt.phased (by simp [playedCard, drawnBy, playedBy]) .resolved
              state.turn sound.turn
            waiting := nofun, started := fun _ => sound.started (by simp [playing]) }

/-- There is always someone whose turn it is. -/
theorem active (sound : Sound past state) (playing : state.phase = .playing) :
    ∃ who ∈ state.participants, state.requireTurn who = .ok () := by
  have seated := sound.started (by simp [playing])
  have bound : state.turn.toNat % max state.participants.length 1 < state.participants.length := by
    have := Nat.mod_lt state.turn.toNat (show 0 < max state.participants.length 1 by omega)
    omega
  have found : state.active = some (state.participants.get ⟨_, bound⟩) :=
    List.getElem?_eq_getElem bound
  refine ⟨_, List.mem_of_getElem? found, ?_⟩
  unfold MatchState.requireTurn
  rw [found, if_neg (not_not.mpr playing), if_neg (not_not.mpr rfl)]

end Sound

/-- Every match, in every order of commands. -/
theorem run_sound {E : Type} {range : UInt64 → UInt64 → E → UInt64 × E}
    (inputs : List (Command × OwnedDeterministicCtx E ParticipantId)) :
    let start : Aggregate (Match range) := ⟨.new⟩
    let final := (inputs.foldl Aggregate.handled start).state
    Sound (start.history inputs) final ∧
      (final.phase = .playing → ∃ who ∈ final.participants, final.requireTurn who = .ok ()) := by
  intro start final
  have sound : Sound (start.history inputs) final := by
    refine Aggregate.history_induction (A := Match range)
      (fun past aggregate => Sound past aggregate.state) (fun past aggregate input sound => ?_)
      sound_new inputs
    rw [Aggregate.handled_eq]
    rcases emitted_cases aggregate.state input with nothing | emits
    · rw [nothing, List.append_nil]
      exact sound
    · exact sound.emits emits
  exact ⟨sound, sound.active⟩

/-! ## The test macros -/

section Macros

variable {chacha12 : Seed → UInt64 → UInt32} {R : Type}
variable (range : UInt64 → UInt64 → SeededEntropy chacha12 → UInt64 × SeededEntropy chacha12)

theorem length_resampleCards (cards : List UInt8) (entropy : SeededEntropy chacha12) :
    (resampleCards range cards entropy).1.length = cards.length := by
  induction cards generalizing entropy with
  | nil => rfl
  | cons card cards ih => exact congrArg (· + 1) (ih (range 0 52 entropy).2)

/-- A viewer cannot tell a state from its sibling. -/
theorem siblings_agree (state : MatchState) {viewer perturbed : ParticipantId}
    (entropy : SeededEntropy chacha12) (foreign : perturbed ≠ viewer) :
    Agree viewer state (resampleHidden range state perturbed entropy) := by
  have fabrication : ∀ token : UInt32, Owned.Same viewer state.fabrication
      (if state.fabrication.owner == perturbed then ⟨perturbed, ⟨token⟩⟩
        else state.fabrication) := by
    intro token
    split
    · rename_i owns
      have owner : state.fabrication.owner = perturbed := by simpa using owns
      refine ⟨by rw [owner], fun own => ?_, fun _ => rfl⟩
      exact absurd (owner.symm.trans own) foreign
    · exact ⟨Iff.rfl, fun _ => rfl, fun _ => rfl⟩
  unfold resampleHidden
  split
  rename_i hands drawn resampled
  split at resampled
  · rename_i hand held
    cases resampled
    refine ⟨rfl, rfl, rfl, rfl, ?own, ?sizes, fabrication _, fun _ => rfl⟩
    case own => rw [get_insert, if_neg (Ne.symm foreign)]
    case sizes =>
      intro p
      rw [get_insert]
      split
      · rename_i same
        rw [same, held]
        exact congrArg some (length_resampleCards range hand.cards entropy).symm
      · rfl
  · cases resampled
    exact ⟨rfl, rfl, rfl, rfl, rfl, fun _ => rfl, fabrication _, fun _ => rfl⟩

/-- Agreement of the boards and of what the viewer sees is kept by every command but a played
card. -/
theorem agree_unwinding (viewer : ParticipantId) :
    Unwinding (Aggregate.handled (A := Match range)) (seenBy viewer) (Admitted ["PlayCard"])
      (fun s t => Agree viewer s.state t.state) where
  seen := (releasing viewer).seen
  kept := by
    rintro s t ⟨cmd, ctx⟩ admitted agree
    refine agree.handled (fun who play => ?_) ctx
    subst play
    cases admitted

/-- `leak_test!(MatchState, excluding = [PlayCard])`, over any inputs. -/
theorem runLeak_match (inputs : AggregateArbitrary (Match range) R chacha12)
    (seededRunner : UInt64 → R) (params : DriveParams) :
    Yields (fun failure => failure = .noValue ∧ inputs.Gap) (fun _ => True)
      (runLeak (leakTestable range inputs) ["PlayCard"] seededRunner params) :=
  runLeak_unwinding (leakTestable range inputs) ["PlayCard"]
    (fun viewer s t => Agree viewer s.state t.state) (agree_unwinding range)
    (fun state _ _ entropy distinct => siblings_agree range state entropy (by simpa using distinct))
    seededRunner params

/-- Every hop of an accepted command is legal, and no event shortens the board. -/
theorem steps_sound {state : MatchState} {cmd : Command} {events : List MatchEvent}
    (emits : Emits state cmd events) :
    ∀ step ∈ steps (A := Match range) state events,
      legalHop (MatchState.phase step.1) (MatchState.phase step.2.2) = true ∧
        (MatchState.board step.2.2).length ≥ (MatchState.board step.1).length := by
  have stays : ∀ phase : MatchPhase, legalHop phase phase = true := fun phase => if_pos BEq.rfl
  cases emits with
  | join setup absent first =>
    rintro _ (_ | ⟨_, ⟨⟩⟩)
    exact ⟨stays _, Nat.le_refl _⟩
  | joinStart setup absent last =>
    rintro _ (_ | ⟨_, _ | ⟨_, ⟨⟩⟩⟩)
    · exact ⟨stays _, Nat.le_refl _⟩
    · refine ⟨?_, Nat.le_refl _⟩
      show legalHop state.phase MatchPhase.playing = true
      rw [setup]
      decide
  | draw turn card =>
    rintro _ (_ | ⟨_, ⟨⟩⟩)
    exact ⟨stays _, Nat.le_refl _⟩
  | play turn held =>
    rintro _ (_ | ⟨_, ⟨⟩⟩)
    refine ⟨stays _, ?_⟩
    simp [MatchState.evolve]
  | endTurn turn =>
    rintro _ (_ | ⟨_, ⟨⟩⟩)
    exact ⟨stays _, Nat.le_refl _⟩
  | timeout playing =>
    rintro _ (_ | ⟨_, ⟨⟩⟩)
    refine ⟨?_, Nat.le_refl _⟩
    show legalHop state.phase MatchPhase.resolved = true
    rw [playing]
    decide

/-- The batches of a match are sound. -/
theorem handled_sound (aggregate : Aggregate (Match range))
    (input : (Match range).Command × (Match range).Ctx) :
    ∀ step ∈ steps aggregate.state (aggregate.emitted input),
      SoundStep (invariants range) step := by
  intro step listed
  rcases emitted_cases aggregate.state input with nothing | emits
  · rw [nothing] at listed
    cases listed
  · obtain ⟨legal, grows⟩ := steps_sound range emits step listed
    refine ⟨legal, fun invariant declared => ?_⟩
    cases List.mem_singleton.mp declared
    exact decide_eq_true grows

/-- `test!(MatchState)`, over any inputs. -/
theorem runTest_match (inputs : AggregateArbitrary (Match range) R chacha12)
    (seededRunner : UInt64 → R) (params : DriveParams) :
    Yields (fun failure => failure = .noValue ∧ inputs.Gap) (fun _ => True)
      (runTest inputs seededRunner params (invariants range)) :=
  runTest_sound (handled_sound range) seededRunner params

section Own

variable {oneOf : List (Nat × Command) → R → Option (Command × R)}
variable (total : ∀ choices runner, choices ≠ [] → oneOf choices runner ≠ none)

include total

/-- The match's own inputs have a value where `prop_oneof!` picks one of what it is given. -/
theorem arbitrary_gapless :
    ¬(arbitrary range oneOf : AggregateArbitrary (Match range) R chacha12).Gap := by
  rintro (none | @⟨state, runner, none⟩)
  · cases none
  · refine absurd none ?_
    unfold arbitrary
    dsimp only
    split
    · exact Option.some_ne_none _
    · exact total _ _ (List.cons_ne_nil _ _)
    · exact Option.some_ne_none _

/-- `test!(MatchState)` passes. -/
theorem runTest_arbitrary (seededRunner : UInt64 → R) (params : DriveParams) :
    runTest (arbitrary range oneOf) seededRunner params (invariants range) = .ok () :=
  runTest_gapless (arbitrary_gapless range total) (handled_sound range) seededRunner params

/-- `leak_test!(MatchState, excluding = [PlayCard])` passes. -/
theorem runLeak_arbitrary (seededRunner : UInt64 → R) (params : DriveParams) :
    runLeak (leakTestable range (arbitrary range oneOf)) ["PlayCard"] seededRunner params =
      .ok () :=
  runLeak_gapless (arbitrary_gapless range total) (agree_unwinding range)
    (fun state _ _ entropy distinct => siblings_agree range state entropy (by simpa using distinct))
    seededRunner params

end Own

end Macros

end Ironstate.Examples.HiddenInfo
