import ProviderBindings.Proofs.Running

/-!
# Nested stages

Blocks of work stand inside one another, and each names its stage and perhaps the target it works on.
`Failure.leaving` says what comes out of all of them when a failure comes up in the innermost, without going
through them: whatever is not known yet is filled in by the innermost block that knows it, target and stage
apart from one another. `run_inBlocks` shows that the blocks do just that. It is by induction on the blocks from
the outside in, where one more block adds to what has left the ones inside it (`leaving_cons`).
-/

namespace ProviderBindings

/-- A block of work. -/
structure Block where
  /-- The provider or module it works on. -/
  target : Option String
  /-- The stage it is. -/
  stage : String

/-- Work inside nested blocks, the outermost first. -/
def inBlocks {α : Type} {m : Type → Type} [MonadExcept Failure m] [Monad m] (blocks : List Block)
    (work : m α) : m α :=
  blocks.foldr (fun block inner => inStage block.target block.stage inner) work

namespace Block

/-- The targets of nested blocks, from the innermost outwards. -/
def targetsOutwards (blocks : List Block) : List (Option String) :=
  blocks.reverse.map Block.target

/-- The stage of the innermost of nested blocks. -/
def innermostStage (blocks : List Block) : Option String :=
  blocks.getLast?.map Block.stage

/-- One more block around others comes last on the way out. -/
theorem targetsOutwards_cons (block : Block) (rest : List Block) :
    targetsOutwards (block :: rest) = targetsOutwards rest ++ [block.target] := by
  simp [targetsOutwards]

/-- One more block around others is the innermost only where there are no others. -/
theorem innermostStage_cons (block : Block) (rest : List Block) :
    innermostStage (block :: rest) = (innermostStage rest).or (some block.stage) := by
  unfold innermostStage
  rw [List.getLast?_cons]
  cases rest.getLast? <;> rfl

end Block

/-- The first text of a list that is known. An empty text is known. -/
def firstKnown (texts : List (Option String)) : Option String :=
  texts.findSome? id

/-- A text at the end counts where none before it is known. -/
theorem firstKnown_concat (texts : List (Option String)) (last : Option String) :
    firstKnown (texts ++ [last]) = (firstKnown texts).or last := by
  unfold firstKnown
  rw [List.findSome?_append]
  cases last <;> rfl

namespace Failure

open Block

/-- What comes out of nested blocks when a failure comes up in the innermost. -/
def leaving (blocks : List Block) : Failure → Failure
  | generation e =>
    .generation
      { e with
        target := firstKnown (e.target :: targetsOutwards blocks)
        stage := e.stage.or (innermostStage blocks) }
  | system e =>
    match innermostStage blocks with
    | none => .system e
    | some stage =>
      .generation { cause := .system e, target := firstKnown (targetsOutwards blocks), stage := some stage }
  | failure => failure

/-- Nothing changes where there are no blocks. -/
theorem leaving_nil (failure : Failure) : failure.leaving [] = failure := by
  cases failure with
  | generation e =>
    obtain ⟨cause, target, stage⟩ := e
    cases target <;> cases stage <;> rfl
  | _ => rfl

/-- What comes out of a block around others is what came out of those, put into the stage of the block. -/
theorem leaving_cons (block : Block) (rest : List Block) (failure : Failure) :
    failure.leaving (block :: rest) = (failure.leaving rest).inStage block.target block.stage := by
  cases failure with
  | generation e =>
    have htarget : firstKnown (e.target :: targetsOutwards (block :: rest)) =
        (firstKnown (e.target :: targetsOutwards rest)).or block.target := by
      rw [targetsOutwards_cons, ← List.cons_append, firstKnown_concat]
    have hstage : e.stage.or (innermostStage (block :: rest)) =
        (e.stage.or (innermostStage rest)).or (some block.stage) := by
      rw [innermostStage_cons, Option.or_assoc]
    simp only [leaving, inStage, GenerationError.stamp, htarget, hstage]
  | system e =>
    -- the innermost block is the one that makes an error of generation of it
    simp only [leaving, innermostStage_cons, targetsOutwards_cons, firstKnown_concat]
    cases hinner : innermostStage rest with
    | some stage => rfl
    | none =>
      have hrest : rest = [] := by simpa [innermostStage] using hinner
      subst hrest
      rfl
  | _ => rfl

/-- The wording of a failure stays the same on the way out. -/
theorem text_leaving (blocks : List Block) (failure : Failure) : (failure.leaving blocks).text = failure.text := by
  cases failure with
  | system e =>
    unfold leaving
    cases innermostStage blocks <;> rfl
  | _ => rfl

end Failure

/-- Nested blocks come to what the work in the innermost comes to. A success stays as it is; a failure leaves with
the words it came up with, stamped by the innermost blocks that know more than it does. -/
theorem run_inBlocks {σ α : Type} (blocks : List Block) (work : ExceptT Failure (StateM σ) α) (s : σ) :
    (inBlocks blocks work).run s = ((work.run s).1.mapError (Failure.leaving blocks), (work.run s).2) ∧
      ∀ failure : Failure, (failure.leaving blocks).text = failure.text := by
  refine ⟨?_, Failure.text_leaving blocks⟩
  -- from the outside in: what the outermost block does to what has left the others
  induction blocks with
  | nil =>
    show work.run s = _
    rcases work.run s with ⟨failure | a, t⟩
    · show (Except.error failure, t) = (Except.error (failure.leaving []), t)
      rw [Failure.leaving_nil]
    · rfl
  | cons block rest ih =>
    show (inStage block.target block.stage (inBlocks rest work)).run s = _
    rw [run_inStage, ih]
    rcases work.run s with ⟨failure | a, t⟩
    · show _ = (Except.error (failure.leaving (block :: rest)), t)
      rw [Failure.leaving_cons]
      rfl
    · rfl

end ProviderBindings
