import AgentLang.Proofs.Generation.Inlining

/-! What single jumps say. They tell neither a loop nor a choice with two bodies from a choice
with one: a program in which only such choices are left has the same code, and has it in both
styles.
-/

namespace AgentLang

-----------------------------------------------------------------------------------------
-- Collapsing statements
-----------------------------------------------------------------------------------------

namespace Statement

mutual

/-- The statement with choices of one body only. The second body of a choice stands behind the
first in the same block, and a loop is a choice.
-/
def collapse : Statement → Statement
  | block children => .block (collapseAll children)
  | ifThen condition body => .ifThen condition (collapse body)
  | ifElse condition thenBody elseBody =>
      .ifThen condition (.block ((collapse thenBody).statements ++ (collapse elseBody).statements))
  | whileDo condition body => .ifThen condition (collapse body)
  | call name => .call name

def collapseAll : List Statement → List Statement
  | [] => []
  | child :: rest => collapse child :: collapseAll rest

end

/-- Blocks stay blocks, and nothing else becomes one. -/
theorem kind_collapse_eq_block_iff (s : Statement)
    : s.collapse.kind = .block ↔ s.kind = .block := by
  cases s <;> simp [collapse, kind]

theorem ShapedAll.append {left right : List Statement} (h : ShapedAll left)
    (h' : ShapedAll right)
    : ShapedAll (left ++ right) := by
  rw [shapedAll_iff] at h h' ⊢
  intro child member
  rcases List.mem_append.mp member with member | member
  · exact h child member
  · exact h' child member

mutual

/-- Collapsing keeps the shape, by the constructs of the statement. -/
theorem Shaped.collapse (s : Statement) (shaped : s.Shaped) : s.collapse.Shaped := by
  cases s with
  | block children => exact ShapedAll.collapseAll children shaped
  | ifThen condition body | whileDo condition body =>
      exact ⟨(kind_collapse_eq_block_iff body).mpr shaped.1, Shaped.collapse body shaped.2⟩
  | ifElse condition thenBody elseBody =>
      obtain ⟨⟨_, inside⟩, _, insideElse⟩ := shaped
      have first := (Shaped.collapse thenBody inside).statements
      have second := (Shaped.collapse elseBody insideElse).statements
      exact ⟨rfl, first.append second⟩
  | call name => exact shaped

theorem ShapedAll.collapseAll (children : List Statement) (shaped : ShapedAll children)
    : ShapedAll (Statement.collapseAll children) := by
  cases children with
  | nil => trivial
  | cons child rest =>
      obtain ⟨⟨noBlock, inside⟩, shapedRest⟩ := shaped
      have stillNoBlock : child.collapse.kind ≠ .block := by
        rwa [ne_eq, kind_collapse_eq_block_iff]
      exact ⟨⟨stillNoBlock, Shaped.collapse child inside⟩, ShapedAll.collapseAll rest shapedRest⟩

end

end Statement

/-- The program with every body collapsed. -/
def Program.collapse (program : Program) : Program where
  name := program.name
  context := program.context.mapBodies Statement.collapse
  body := program.body.collapse

theorem Program.Shaped.collapse {program : Program} (shaped : program.Shaped)
    : program.collapse.Shaped where
  block := (Statement.kind_collapse_eq_block_iff program.body).mpr shaped.block
  body := Statement.Shaped.collapse program.body shaped.body
  declared := by
    intro entry member
    obtain ⟨declared, listed, rfl⟩ := List.mem_map.mp member
    exact Statement.Shaped.collapse declared.2 (shaped.declared declared listed)

-----------------------------------------------------------------------------------------
-- Collapsing plans
-----------------------------------------------------------------------------------------

namespace Plan

def collapse : Plan → Plan
  | done => .done
  | act p => .act p
  | seq first second => .seq first.collapse second.collapse
  | ifThen condition body => .ifThen condition body.collapse
  | ifElse condition thenPlan elsePlan =>
      .ifThen condition (.seq thenPlan.collapse elsePlan.collapse)
  | whileDo condition body => .ifThen condition body.collapse

theorem size_collapse (style : JumpStyle) (plan : Plan)
    : plan.collapse.size style = plan.size .single := by
  induction plan with
  | done | act p => rfl
  | seq first second ihFirst ihSecond => simp only [collapse, size, ihFirst, ihSecond]
  | ifThen condition body ih | whileDo condition body ih => simp only [collapse, size, ih]
  | ifElse condition thenPlan elsePlan ihThen ihElse =>
      simp only [collapse, size, ihThen, ihElse, Nat.add_assoc]

/-- The code of a collapsed plan, in either style, is that of the plan with single jumps. -/
theorem code_collapse (style : JumpStyle) (offset : Nat) (plan : Plan)
    : plan.collapse.code style offset = plan.code .single offset := by
  induction plan generalizing offset with
  | done | act p => rfl
  | seq first second ihFirst ihSecond =>
      simp only [collapse, code, size_collapse, ihFirst, ihSecond]
  | ifThen condition body ih | whileDo condition body ih =>
      simp only [collapse, code, size_collapse, ih]
  | ifElse condition thenPlan elsePlan ihThen ihElse =>
      -- The one jump leads behind the second body, which is part of what it guards.
      simp only [collapse, code, size, size_collapse, ihThen, ihElse, Nat.add_assoc,
        List.append_assoc]

/-- Two plannings come to the same: to one error, or to the same code in either style. -/
inductive Alike : Except GenerateError Plan → Except GenerateError Plan → Prop
  | failed (cause : GenerateError) : Alike (.error cause) (.error cause)
  | planned {left right : Plan} (same : ∀ style, left.SameCode style right)
    : Alike (.ok left) (.ok right)

namespace Alike

variable {first first' second second' third : Except GenerateError Plan} {condition : Condition}

theorem refl (planned : Except GenerateError Plan) : Alike planned planned := by
  cases planned with
  | error cause => exact .failed cause
  | ok plan => exact .planned fun _ _ => rfl

theorem trans (h : Alike first second) (h' : Alike second third) : Alike first third := by
  cases h with
  | failed cause => exact h'
  | planned same =>
      cases h' with
      | planned same' => exact .planned fun style => (same style).trans (same' style)

theorem ifThen (h : Alike first first')
    : Alike (do return .ifThen condition (← first)) (do return .ifThen condition (← first')) := by
  cases h with
  | failed cause => exact .failed cause
  | planned same => exact .planned fun style => (same style).ifThen

theorem seq (h : Alike first first') (h' : Alike second second')
    : Alike
        (do
          let plan ← first
          return .seq plan (← second))
        (do
          let plan ← first'
          return .seq plan (← second')) := by
  cases h with
  | failed cause => exact .failed cause
  | planned same =>
      cases h' with
      | failed cause => exact .failed cause
      | planned same' => exact .planned fun style => (same style).seq (same' style)

/-- How the children of a block are grouped does not matter. -/
theorem ofAll_append (resolve : Resolver) (left right : List Statement)
    : Alike (ofAll resolve (left ++ right))
        (do
          let plan ← ofAll resolve left
          return .seq plan (← ofAll resolve right)) := by
  induction left with
  | nil =>
      cases planned : ofAll resolve right with
      | error cause =>
          simp only [List.nil_append, planned]
          exact .failed cause
      | ok plan =>
          simp only [List.nil_append, planned]
          exact .planned fun style offset => (SameCode.done_seq plan offset).symm
  | cons child rest ih =>
      refine (Alike.seq (refl _) ih).trans ?_
      rw [ofAll]
      cases ofStatement resolve child with
      | error cause => exact .failed cause
      | ok head =>
          cases ofAll resolve rest with
          | error cause => exact .failed cause
          | ok plan =>
              cases ofAll resolve right with
              | error cause => exact .failed cause
              | ok later =>
                  exact .planned fun style offset =>
                    (SameCode.seq_assoc head plan later offset).symm

/-- The statements of a body come to the same as the body. -/
theorem ofAll_statements (resolve : Resolver) (body : Statement)
    : Alike (ofAll resolve body.statements) (ofStatement resolve body) := by
  cases body with
  | block children => exact refl _
  | ifThen _ _ | ifElse _ _ _ | whileDo _ _ | call _ =>
      simp only [Statement.statements, ofAll]
      generalize ofStatement resolve _ = planned
      cases planned with
      | error cause => exact .failed cause
      | ok plan => exact .planned fun style => .seq_done plan

end Alike

-----------------------------------------------------------------------------------------
-- The plan of what was collapsed
-----------------------------------------------------------------------------------------

mutual

/-- A collapsed statement comes to the collapsed plan of the statement when that holds of its
calls, by the constructs of the statement.
-/
theorem ofStatement_collapse {resolve resolve' : Resolver}
    (calls : ∀ name, Alike (resolve' name) ((resolve name).map collapse)) (s : Statement)
    : Alike (ofStatement resolve' s.collapse) ((ofStatement resolve s).map collapse) := by
  cases s with
  | block children => exact ofAll_collapseAll calls children
  | ifThen condition body =>
      refine (ofStatement_collapse calls body).ifThen.trans ?_
      rw [ofStatement]
      cases ofStatement resolve body <;> exact .refl _
  | ifElse condition thenBody elseBody =>
      have first := (Alike.ofAll_statements resolve' thenBody.collapse).trans
        (ofStatement_collapse calls thenBody)
      have second := (Alike.ofAll_statements resolve' elseBody.collapse).trans
        (ofStatement_collapse calls elseBody)
      have joined := (Alike.ofAll_append resolve' thenBody.collapse.statements
        elseBody.collapse.statements).trans (first.seq second)
      refine joined.ifThen.trans ?_
      rw [ofStatement]
      cases ofStatement resolve thenBody with
      | error cause => exact .failed cause
      | ok thenPlan => cases ofStatement resolve elseBody <;> exact .refl _
  | whileDo condition body =>
      refine (ofStatement_collapse calls body).ifThen.trans ?_
      rw [ofStatement]
      cases ofStatement resolve body <;> exact .refl _
  | call name => exact calls name

theorem ofAll_collapseAll {resolve resolve' : Resolver}
    (calls : ∀ name, Alike (resolve' name) ((resolve name).map collapse))
    (children : List Statement)
    : Alike (ofAll resolve' (Statement.collapseAll children))
        ((ofAll resolve children).map collapse) := by
  cases children with
  | nil => exact .refl _
  | cons child rest =>
      refine ((ofStatement_collapse calls child).seq (ofAll_collapseAll calls rest)).trans ?_
      rw [ofAll]
      cases ofStatement resolve child with
      | error cause => exact .failed cause
      | ok head => cases ofAll resolve rest <;> exact .refl _

end

/-- A name comes to the collapsed plan when every declared body is collapsed, by induction on the
declarations left.
-/
theorem resolve_collapse (context : Context) (expanding : List String) (name : String)
    : Alike (resolve (context.mapBodies Statement.collapse) expanding name)
        ((resolve context expanding name).map collapse) := by
  cases found : context.get? name with
  | some body =>
      have collapsed : (context.mapBodies Statement.collapse).get? name = some body.collapse := by
        rw [Context.get?_mapBodies, found]
        rfl
      rw [resolve_declared found, resolve_declared collapsed, Context.erase_mapBodies]
      exact ofStatement_collapse (resolve_collapse (context.erase name) (name :: expanding)) body
  | none =>
      have missing : (context.mapBodies Statement.collapse).get? name = none := by
        rw [Context.get?_mapBodies, found]
        rfl
      rw [resolve_undeclared found, resolve_undeclared missing, ofName]
      split
      · exact .failed _
      · cases Primitive.ofWord? name <;> exact .refl _
termination_by context.size
decreasing_by exact Context.size_erase_lt found

end Plan

-----------------------------------------------------------------------------------------
-- Whole programs
-----------------------------------------------------------------------------------------

namespace Program

/-- A collapsed program is planned, in either style, as the program is with single jumps. -/
theorem planned_collapse (style : JumpStyle) (program : Program)
    : program.collapse.planned style = program.planned .single := by
  have alike : Plan.Alike program.collapse.plan (program.plan.map Plan.collapse) :=
    Plan.ofStatement_collapse (Plan.resolve_collapse program.context []) program.body
  unfold planned
  generalize program.collapse.plan = collapsed at alike ⊢
  generalize program.plan = plan at alike ⊢
  cases plan with
  | error cause =>
      cases alike
      rfl
  | ok plan =>
      cases alike with
      | planned same =>
          simp only [same style 0, Plan.code_collapse]
          rfl

/-- Single jumps mean choices with one body. A shaped program is handed back with an outcome, code
or an error, and with the same outcome the collapsed program is handed back in both styles.
-/
theorem single_jumps_collapse {program : Program} (shaped : program.Shaped)
    : ∃ outcome,
        program.generate .single = (program, outcome)
        ∧ (∀ style, program.collapse.generate style = (program.collapse, outcome))
        ∧ ∀ violation, outcome ≠ .broken violation := by
  refine ⟨program.planned .single, generate_of_shaped .single shaped, ?_,
    planned_ne_broken .single program⟩
  intro style
  rw [generate_of_shaped style shaped.collapse, planned_collapse]

/-- A choice with two bodies in an instruction that is called from a loop. -/
def scout : Program where
  name := "Scout"
  context :=
    .ofList [("step", .block [.ifElse .random (.block [.call "turnleft"]) (.block [.call "move"])])]
  body := .block [.whileDo .always (.block [.call "step", .call "infect"]), .call "skip"]

theorem single_jumps_collapse_scout
    : scout.Shaped
      ∧ scout.collapse
        = {
          name := "Scout"
          context :=
            .ofList
              [("step", .block [.ifThen .random (.block [.call "turnleft", .call "move"])])]
          body := .block [.ifThen .always (.block [.call "step", .call "infect"]), .call "skip"]
        }
      ∧ ∀ style,
          scout.collapse.generate style
            = (scout.collapse, .generated ⟨"Scout", [16, 7, 15, 6, 1, 0, 3, 4, 5]⟩) := by
  have shaped : scout.Shaped := ⟨by decide, by decide, by decide⟩
  have generated : scout.generate .single
      = (scout, .generated ⟨"Scout", [16, 7, 15, 6, 1, 0, 3, 4, 5]⟩) := by
    decide
  obtain ⟨outcome, single, both, _⟩ := single_jumps_collapse shaped
  obtain ⟨_, rfl⟩ := Prod.mk.inj (generated.symm.trans single)
  exact ⟨shaped, by decide, both⟩

end Program

end AgentLang
