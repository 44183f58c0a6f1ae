import AgentLang.Proofs.Generation.Returning

/-! Calls are replaced by what they call. A program in which every call of a declared name has
given way to the statements declared under it, again and again until none is left, needs no
declarations, and its code is that of the program it was made from.
-/

namespace AgentLang

/-- The statements that take the place of a call of a body. -/
def Statement.statements : Statement → List Statement
  | .block children => children
  | other => [other]

theorem Statement.Shaped.statements {body : Statement} (shaped : body.Shaped)
    : ShapedAll body.statements := by
  cases body with
  | block children => exact shaped
  | ifThen _ _ | ifElse _ _ _ | whileDo _ _ | call _ => exact ⟨⟨nofun, shaped⟩, trivial⟩

/-- The children of a block with every call of a declared name replaced by the statements of its
body, in which calls are replaced in their turn. Other calls stay.
-/
inductive Inlined (context : Context) : List Statement → List Statement → Prop
  | nil : Inlined context [] []
  | declared {name body spliced rest rest'} (found : context.get? name = some body)
    (inside : Inlined context body.statements spliced) (later : Inlined context rest rest')
    : Inlined context (.call name :: rest) (spliced ++ rest')
  | undeclared {name rest rest'} (missing : context.get? name = none)
    (later : Inlined context rest rest')
    : Inlined context (.call name :: rest) (.call name :: rest')
  | ifThen {condition body body' rest rest'} (inside : Inlined context body body')
    (later : Inlined context rest rest')
    : Inlined context (.ifThen condition (.block body) :: rest)
        (.ifThen condition (.block body') :: rest')
  | ifElse {condition thenBody thenBody' elseBody elseBody' rest rest'}
    (first : Inlined context thenBody thenBody') (second : Inlined context elseBody elseBody')
    (later : Inlined context rest rest')
    : Inlined context (.ifElse condition (.block thenBody) (.block elseBody) :: rest)
        (.ifElse condition (.block thenBody') (.block elseBody') :: rest')
  | whileDo {condition body body' rest rest'} (inside : Inlined context body body')
    (later : Inlined context rest rest')
    : Inlined context (.whileDo condition (.block body) :: rest)
        (.whileDo condition (.block body') :: rest')

/-- Nothing is left open when calls are replaced. -/
theorem Inlined.unique {context : Context} {source left right : List Statement}
    (h : Inlined context source left) (h' : Inlined context source right)
    : left = right := by
  induction h generalizing right with
  | nil =>
      cases h'
      rfl
  | declared found _ _ ihInside ihLater =>
      cases h' with
      | declared found' inside' later' =>
          cases found.symm.trans found'
          rw [ihInside inside', ihLater later']
      | undeclared missing _ => cases missing.symm.trans found
  | undeclared missing _ ih =>
      cases h' with
      | declared found _ _ => cases missing.symm.trans found
      | undeclared _ later' => rw [ih later']
  | ifThen _ _ ihInside ihLater =>
      cases h' with
      | ifThen inside' later' => rw [ihInside inside', ihLater later']
  | ifElse _ _ _ ihFirst ihSecond ihLater =>
      cases h' with
      | ifElse first' second' later' => rw [ihFirst first', ihSecond second', ihLater later']
  | whileDo _ _ ihInside ihLater =>
      cases h' with
      | whileDo inside' later' => rw [ihInside inside', ihLater later']

-----------------------------------------------------------------------------------------
-- Statements that need no declarations
-----------------------------------------------------------------------------------------

namespace Plan

/-- Shaped children of a block that have the code of a plan without any declarations. -/
structure WrittenBy (style : JumpStyle) (plan : Plan) (children : List Statement) : Prop where
  shaped : Statement.ShapedAll children
  found : ∃ own, ofAll (resolve .empty []) children = .ok own ∧ own.SameCode style plan

namespace WrittenBy

variable {style : JumpStyle} {condition : Condition} {plan plan' : Plan}
  {children others : List Statement}

theorem nil : WrittenBy style .done [] :=
  ⟨trivial, .done, rfl, fun _ => rfl⟩

theorem of_sameCode (h : WrittenBy style plan children) (same : plan.SameCode style plan')
    : WrittenBy style plan' children := by
  obtain ⟨shaped, own, found, sameOwn⟩ := h
  exact ⟨shaped, own, found, sameOwn.trans same⟩

/-- One child in front of others. -/
theorem cons {child : Statement} {own : Plan} (noBlock : child.kind ≠ .block)
    (shaped : child.Shaped) (found : ofStatement (resolve .empty []) child = .ok own)
    (same : own.SameCode style plan) (later : WrittenBy style plan' others)
    : WrittenBy style (.seq plan plan') (child :: others) := by
  obtain ⟨shapedRest, ownRest, foundRest, sameRest⟩ := later
  refine ⟨⟨⟨noBlock, shaped⟩, shapedRest⟩, .seq own ownRest, ?_, same.seq sameRest⟩
  exact bind_eq_ok_iff.mpr ⟨own, found, bind_pure_eq_ok_iff.mpr ⟨ownRest, foundRest, rfl⟩⟩

theorem ifThen (h : WrittenBy style plan children) (later : WrittenBy style plan' others)
    : WrittenBy style (.seq (.ifThen condition plan) plan')
        (.ifThen condition (.block children) :: others) := by
  obtain ⟨shaped, own, found, same⟩ := h
  exact cons nofun ⟨rfl, shaped⟩ (bind_pure_eq_ok_iff.mpr ⟨own, found, rfl⟩) same.ifThen later

theorem ifElse {thenBody elseBody : List Statement} {thenPlan elsePlan : Plan}
    (h : WrittenBy style thenPlan thenBody) (h' : WrittenBy style elsePlan elseBody)
    (later : WrittenBy style plan' others)
    : WrittenBy style (.seq (.ifElse condition thenPlan elsePlan) plan')
        (.ifElse condition (.block thenBody) (.block elseBody) :: others) := by
  obtain ⟨shaped, own, found, same⟩ := h
  obtain ⟨shapedElse, ownElse, foundElse, sameElse⟩ := h'
  refine cons nofun ⟨⟨rfl, shaped⟩, rfl, shapedElse⟩ ?_ (same.ifElse sameElse) later
  exact bind_eq_ok_iff.mpr ⟨own, found, bind_pure_eq_ok_iff.mpr ⟨ownElse, foundElse, rfl⟩⟩

theorem whileDo (h : WrittenBy style plan children) (later : WrittenBy style plan' others)
    : WrittenBy style (.seq (.whileDo condition plan) plan')
        (.whileDo condition (.block children) :: others) := by
  obtain ⟨shaped, own, found, same⟩ := h
  exact cons nofun ⟨rfl, shaped⟩ (bind_pure_eq_ok_iff.mpr ⟨own, found, rfl⟩) same.whileDo later

/-- Children put in front of others, by induction on them. -/
theorem append (h : WrittenBy style plan children) (later : WrittenBy style plan' others)
    : WrittenBy style (.seq plan plan') (children ++ others) := by
  obtain ⟨shaped, own, found, same⟩ := h
  suffices joined : WrittenBy style (.seq own plan') (children ++ others) from
    joined.of_sameCode (same.seq fun _ => rfl)
  clear same
  induction children generalizing own with
  | nil =>
      cases found
      exact later.of_sameCode fun offset => (SameCode.done_seq plan' offset).symm
  | cons child rest ih =>
      obtain ⟨⟨noBlock, inside⟩, shapedRest⟩ := shaped
      obtain ⟨first, foundFirst, remaining⟩ := bind_eq_ok_iff.mp found
      obtain ⟨ownRest, foundRest, rfl⟩ := bind_pure_eq_ok_iff.mp remaining
      have joined := cons noBlock inside foundFirst (fun _ => rfl) (ih shapedRest ownRest foundRest)
      exact joined.of_sameCode fun offset => (SameCode.seq_assoc first ownRest plan' offset).symm

end WrittenBy

-----------------------------------------------------------------------------------------
-- Replacing the calls of a block
-----------------------------------------------------------------------------------------

/-- Calls that are resolved can be replaced by statements with the code of what they are
resolved to.
-/
def Resolver.Splices (style : JumpStyle) (context : Context) (resolve : Resolver) : Prop :=
  ∀ ⦃name : String⦄ ⦃plan : Plan⦄,
    resolve name = .ok plan
    → ∃ spliced,
        plan.WrittenBy style spliced
        ∧ ∀ ⦃rest rest' : List Statement⦄,
            Inlined context rest rest'
            → Inlined context (.call name :: rest) (spliced ++ rest')

/-- Where a block has a plan its calls can be replaced, and the result has the code of the plan,
by the children of the block and of the blocks inside it.
-/
theorem exists_inlined {style : JumpStyle} {context : Context} {resolve : Resolver}
    (splices : resolve.Splices style context) (children : List Statement)
    (shaped : Statement.ShapedAll children) {plan : Plan}
    (found : ofAll resolve children = .ok plan)
    : ∃ inlined, Inlined context children inlined ∧ plan.WrittenBy style inlined := by
  cases children with
  | nil =>
      cases found
      exact ⟨[], .nil, .nil⟩
  | cons child rest =>
      obtain ⟨⟨noBlock, inside⟩, shapedRest⟩ := shaped
      obtain ⟨first, foundFirst, remaining⟩ := bind_eq_ok_iff.mp found
      obtain ⟨later, foundRest, rfl⟩ := bind_pure_eq_ok_iff.mp remaining
      obtain ⟨rest', inlinedRest, writtenRest⟩ := exists_inlined splices rest shapedRest foundRest
      cases child with
      | block children => exact (noBlock rfl).elim
      | call name =>
          obtain ⟨spliced, written, replace⟩ := splices foundFirst
          exact ⟨_, replace inlinedRest, written.append writtenRest⟩
      | ifThen condition body =>
          obtain ⟨block, shapedBody⟩ := inside
          obtain ⟨children, rfl⟩ := Statement.exists_block block
          obtain ⟨bodyPlan, foundBody, rfl⟩ := bind_pure_eq_ok_iff.mp foundFirst
          obtain ⟨children', inlined, written⟩ :=
            exists_inlined splices children shapedBody foundBody
          exact ⟨_, .ifThen inlined inlinedRest, written.ifThen writtenRest⟩
      | ifElse condition thenBody elseBody =>
          obtain ⟨⟨block, shapedThen⟩, blockElse, shapedElse⟩ := inside
          obtain ⟨thenChildren, rfl⟩ := Statement.exists_block block
          obtain ⟨elseChildren, rfl⟩ := Statement.exists_block blockElse
          obtain ⟨thenPlan, foundThen, second⟩ := bind_eq_ok_iff.mp foundFirst
          obtain ⟨elsePlan, foundElse, rfl⟩ := bind_pure_eq_ok_iff.mp second
          obtain ⟨thenChildren', inlinedThen, writtenThen⟩ :=
            exists_inlined splices thenChildren shapedThen foundThen
          obtain ⟨elseChildren', inlinedElse, writtenElse⟩ :=
            exists_inlined splices elseChildren shapedElse foundElse
          exact ⟨_, .ifElse inlinedThen inlinedElse inlinedRest,
            writtenThen.ifElse writtenElse writtenRest⟩
      | whileDo condition body =>
          obtain ⟨block, shapedBody⟩ := inside
          obtain ⟨children, rfl⟩ := Statement.exists_block block
          obtain ⟨bodyPlan, foundBody, rfl⟩ := bind_pure_eq_ok_iff.mp foundFirst
          obtain ⟨children', inlined, written⟩ :=
            exists_inlined splices children shapedBody foundBody
          exact ⟨_, .whileDo inlined inlinedRest, written.whileDo writtenRest⟩
termination_by sizeOf children

/-- The statements of a body have the plan of the body, but for how it is grouped. -/
theorem ofAll_statements {style : JumpStyle} {resolve : Resolver} {body : Statement} {plan : Plan}
    (found : ofStatement resolve body = .ok plan)
    : ∃ own, ofAll resolve body.statements = .ok own ∧ own.SameCode style plan := by
  have single : ∃ own, ofAll resolve [body] = .ok own ∧ own.SameCode style plan :=
    ⟨.seq plan .done, bind_eq_ok_iff.mpr ⟨plan, found, rfl⟩, .seq_done plan⟩
  cases body with
  | block children => exact ⟨plan, found, fun _ => rfl⟩
  | ifThen _ _ | ifElse _ _ _ | whileDo _ _ | call _ => exact single

/-- A primitive is called by the word it has, which is not empty. -/
theorem writtenBy_call {style : JumpStyle} {name : String} {p : Primitive}
    (primitive : Primitive.ofWord? name = some p)
    : WrittenBy style (.act p) [.call name] := by
  have noBlock : (Statement.call name).kind ≠ .block := by simp [Statement.kind]
  have named : name ≠ "" := by
    intro empty
    subst empty
    cases primitive
  have found : ofStatement (resolve .empty []) (.call name) = .ok (.act p) := by
    have resolved : resolve .empty [] name = ofName [] name := resolve_undeclared rfl
    simp [ofStatement, resolved, ofName, primitive]
  have written : WrittenBy style (.seq (.act p) .done) [.call name] :=
    .cons noBlock named found (fun _ => rfl) .nil
  exact written.of_sameCode (.seq_done _)

/-- Calls that are resolved are spliced, although the declarations being expanded are taken out:
where one of them would be missed, resolving fails. By induction on the declarations left.
-/
theorem resolve_splices (style : JumpStyle) {context : Context}
    (declared : ∀ name body, context.get? name = some body → body.Shaped) (left : Context)
    (expanding : List String) (remaining : Remaining context expanding left)
    : Resolver.Splices style context (resolve left expanding) := by
  intro name plan resolved
  have lookup := remaining name
  cases found : left.get? name with
  | some body =>
      rw [resolve_declared found] at resolved
      have outer : context.get? name = some body := by
        split at lookup
        · cases lookup.symm.trans found
        · exact lookup.symm.trans found
      obtain ⟨own, foundAll, same⟩ := ofAll_statements resolved
      obtain ⟨spliced, inlined, written⟩ :=
        exists_inlined
          (resolve_splices style declared (left.erase name) (name :: expanding)
            (remaining.erase name))
          body.statements (declared name body outer).statements foundAll
      exact ⟨spliced, written.of_sameCode same, fun _ _ later => .declared outer inlined later⟩
  | none =>
      rw [resolve_undeclared found, ofName] at resolved
      split at resolved
      · cases resolved
      · rename_i fresh
        have missing : context.get? name = none := by
          rw [if_neg (by simpa using fresh)] at lookup
          exact lookup.symm.trans found
        cases primitive : Primitive.ofWord? name with
        | none =>
            rw [primitive] at resolved
            cases resolved
        | some p =>
            rw [primitive] at resolved
            cases resolved
            exact ⟨[.call name], writtenBy_call primitive,
              fun _ _ later => .undeclared missing later⟩
termination_by left.size
decreasing_by exact Context.size_erase_lt found

end Plan

-----------------------------------------------------------------------------------------
-- Whole programs
-----------------------------------------------------------------------------------------

namespace Program

/-- The program of the same name with nothing declared. -/
def bare (program : Program) (children : List Statement) : Program :=
  ⟨program.name, .empty, .block children⟩

/-- Calls are replaced by what they call: when a shaped program has code, its calls can be
replaced, in one way only, and the program that results has the same code without declarations.
-/
theorem generate_inlines_calls (style : JumpStyle) {program left : Program} {compiled : Compiled}
    (shaped : program.Shaped)
    (generated : program.generate style = (left, .generated compiled))
    : ∃ inlined,
        Inlined program.context program.body.statements inlined
        ∧ (∀ other, Inlined program.context program.body.statements other → other = inlined)
        ∧ (program.bare inlined).generate style = (program.bare inlined, .generated compiled) := by
  obtain ⟨plan, found, rfl⟩ := plan_of_generated generated
  have splices : Plan.Resolver.Splices style program.context (Plan.resolve program.context []) :=
    Plan.resolve_splices style (fun _ _ => shaped.get?) program.context [] fun _ => by simp
  obtain ⟨children, block⟩ := Statement.exists_block shaped.block
  have inside := shaped.body
  rw [Program.plan, block] at found
  rw [block] at inside ⊢
  obtain ⟨inlined, replaced, written⟩ := Plan.exists_inlined splices children inside found
  refine ⟨inlined, replaced, fun other replaced' => replaced'.unique replaced, ?_⟩
  obtain ⟨shapedInlined, own, foundOwn, same⟩ := written
  have bareShaped : (program.bare inlined).Shaped := ⟨rfl, shapedInlined, nofun⟩
  rw [generate_of_shaped style bareShaped]
  refine congrArg _ (planned_eq_generated_iff.mpr ⟨own, foundOwn, ?_⟩)
  rw [same 0]
  rfl

/-- An instruction that calls another one inside a choice, and both called from a loop. -/
def sentry : Program :=
  {
    name := "Sentry"
    context :=
      .ofList
        [
          ("around", .block [.call "turnleft", .call "turnleft"]),
          ("guard", .block [.ifThen .nextIsWall (.block [.call "around"]), .call "move"])
        ]
    body := .block [.whileDo .always (.block [.call "guard"]), .call "around"]
  }

theorem generate_inlines_calls_sentry
    : sentry.Shaped
      ∧ ∃ inlined,
          inlined
            = [
              .whileDo .always
                (.block
                  [
                    .ifThen .nextIsWall (.block [.call "turnleft", .call "turnleft"]),
                    .call "move"
                  ]),
              .call "turnleft",
              .call "turnleft"
            ]
          ∧ Inlined sentry.context sentry.body.statements inlined
          ∧ (sentry.bare inlined).generate .structured
            = (
              sentry.bare inlined,
              .generated ⟨"Sentry", [16, 9, 9, 6, 1, 1, 0, 6, 0, 1, 1, 5]⟩
            ) := by
  have shaped : sentry.Shaped := ⟨by decide, by decide, by decide⟩
  have generated : sentry.generate .structured
      = (sentry, .generated ⟨"Sentry", [16, 9, 9, 6, 1, 1, 0, 6, 0, 1, 1, 5]⟩) := by
    decide
  obtain ⟨inlined, replaced, only, same⟩ := generate_inlines_calls .structured shaped generated
  have aroundFound : sentry.context.get? "around"
      = some (.block [.call "turnleft", .call "turnleft"]) := by
    decide
  have guardFound : sentry.context.get? "guard"
      = some (.block [.ifThen .nextIsWall (.block [.call "around"]), .call "move"]) := by
    decide
  have around : Inlined sentry.context [.call "around"] [.call "turnleft", .call "turnleft"] :=
    .declared aroundFound (.undeclared (by decide) (.undeclared (by decide) .nil)) .nil
  have guarding : Inlined sentry.context [.call "guard"]
      [.ifThen .nextIsWall (.block [.call "turnleft", .call "turnleft"]), .call "move"] :=
    .declared guardFound (.ifThen around (.undeclared (by decide) .nil)) .nil
  exact ⟨shaped, inlined, (only _ (.whileDo guarding around)).symm, replaced, same⟩

end Program

end AgentLang
