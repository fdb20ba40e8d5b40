import Ironstate.Journal.Kept
import Ironstate.Journal.Proofs.Branch

/-!
# Rejected commands leave no trace

On a journal that keeps its history, with one live context, a rejected command leaves the journal,
the aggregate and the context as they were, however much it drew. So a run of `execute` ends where
the run of its accepted commands ends, with the same answers to them (`executeEach_erase`).
-/

namespace Ironstate

variable {A : AggregateRules} {J E : Type} [EntropySource E] [CtxEntropy A.Ctx E]

/-- The commands that were answered with a number. -/
def acceptedOf : List (Except (ExecuteError A) Nat) → List A.Command → List A.Command
  | .ok _ :: answers, cmd :: commands => cmd :: acceptedOf answers commands
  | .error _ :: answers, _ :: commands => acceptedOf answers commands
  | _, _ => []

theorem executeEach_cons [Journal J A Unit] {live : Live A J} {stream : StreamId} {cmd : A.Command}
    {result : Except (ExecuteError A) Nat} {journal : J} {aggregate : Aggregate A} {ctx : A.Ctx}
    (executed : execute live.journal stream live.aggregate cmd live.ctx =
      ⟨result, journal, aggregate, ctx⟩) (commands : List A.Command) :
    executeEach stream (cmd :: commands) live =
      (result :: (executeEach stream commands ⟨journal, aggregate, ctx⟩).1,
        (executeEach stream commands ⟨journal, aggregate, ctx⟩).2) := by
  simp only [executeEach, executed]

variable [Journal J A Unit] [ContractJournal J A] [KeepsHistory J A]
variable {genesis : A.State} {history : StreamId → List (Record A)}

/-- The context stands where the history of the stream does. -/
def StandsAtEnd (history : StreamId → List (Record A)) (stream : StreamId) (ctx : A.Ctx) : Prop :=
  ctxDraws ctx = some (posAt (history stream) (history stream).length)

/-- One command is rejected without a trace, or appends one record, after which the context stands
at the new end. -/
theorem execute_cases [LawfulEntropySource E] (forward : DrawsForward A) {live : Live A J}
    (holds : KeepsHistory.Holds genesis history live.journal) (stream : StreamId)
    (stands : StandsAtEnd history stream live.ctx) (cmd : A.Command) :
    (∃ rejection, (live.aggregate.decideOnly cmd live.ctx).1 = .error rejection ∧
      execute live.journal stream live.aggregate cmd live.ctx =
        ⟨.error (.rejected rejection), live.journal, live.aggregate, live.ctx⟩) ∨
    ∃ events drawn pos journal, live.aggregate.decideOnly cmd live.ctx = (.ok events, drawn) ∧
      execute live.journal stream live.aggregate cmd live.ctx =
        ⟨.ok ((history stream).length + 1), journal,
          ⟨events.foldl A.evolve live.aggregate.state⟩, drawn⟩ ∧
      KeepsHistory.Holds genesis (pushTo history stream ⟨events, pos⟩) journal ∧
      StandsAtEnd (pushTo history stream ⟨events, pos⟩) stream drawn := by
  rcases KeepsHistory.execute holds stream live.aggregate cmd live.ctx with
    ⟨rejection, drawn, decided, rejected⟩ | ⟨events, drawn, pos, journal, decided, rfl, made, kept⟩
  · obtain ⟨n, rfl⟩ := forward.decideOnly decided
    rw [rewind_drawnCtx stands] at rejected
    exact .inl ⟨rejection, congrArg Prod.fst decided, rejected⟩
  · refine .inr ⟨events, drawn, _, journal, decided, made, kept, ?_⟩
    obtain ⟨n, rfl⟩ := forward.decideOnly decided
    obtain ⟨e, present, -⟩ := Option.map_eq_some_iff.mp stands
    have reached : ctxDraws (drawnCtx n live.ctx) = some (draws (drawWords n e)) := by
      unfold ctxDraws
      rw [entropy_drawnCtx, present]
      rfl
    unfold StandsAtEnd
    rw [pushTo_self, List.length_append, List.length_singleton, posAt_push, reached]
    rfl

/-- The run of the accepted commands alone ends in the same journal, aggregate and context, and
numbers its records one after another from the head. -/
theorem executeEach_erase [LawfulEntropySource E] (forward : DrawsForward A) {live : Live A J}
    (holds : KeepsHistory.Holds genesis history live.journal) (stream : StreamId)
    (stands : StandsAtEnd history stream live.ctx) (commands : List A.Command) :
    let ran := executeEach stream commands live
    let kept := acceptedOf ran.1 commands
    executeEach stream kept live =
        ((List.range' ((history stream).length + 1) kept.length).map .ok, ran.2) ∧
      ran.1.filter (fun answer => answer.isOk) =
        (List.range' ((history stream).length + 1) kept.length).map .ok := by
  induction commands generalizing live history with
  | nil => exact ⟨rfl, rfl⟩
  | cons cmd commands ih =>
    rcases execute_cases forward holds stream stands cmd with
      ⟨rejection, -, rejected⟩ | ⟨events, drawn, pos, journal, -, made, holds', stands'⟩
    · rw [executeEach_cons rejected]
      exact ih holds stands
    · obtain ⟨erased, numbered⟩ := @ih _ ⟨journal, _, drawn⟩ holds' stands'
      rw [pushTo_self, List.length_append, List.length_singleton] at erased numbered
      rw [executeEach_cons made]
      dsimp only [acceptedOf]
      rw [executeEach_cons made, erased]
      refine ⟨rfl, ?_⟩
      rw [List.filter_cons_of_pos rfl, numbered]
      rfl

end Ironstate
