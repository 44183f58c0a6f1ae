import AgentLang.Proofs.Generation.Returning

/-! Which programs have code. Expanding the calls of a program, each before those to its right,
meets calls that cannot be resolved; the first of them is what the generator reports. There is
none exactly when every name that is reached is known and no declared one comes back to itself.
-/

namespace AgentLang

/-- A call, met while the declarations of the stack are being expanded, innermost first. -/
structure CallSite where
  stack : List String
  name : String
  deriving DecidableEq, Repr

/-- What is wrong with a call: its name is being expanded already, or nobody knows it. -/
def CallSite.offence? (context : Context) (site : CallSite) : Option GenerateError :=
  if site.name ∈ site.stack then
    some (.recursiveInstruction site.name)
  else if context.contains site.name ∨ (Primitive.ofWord? site.name).isSome then
    none
  else
    some (.unknownInstruction site.name)

namespace Context

variable {context : Context} {stack : List String} {name : String}

/-- One name more on the stack leaves fewer that can be put on it. -/
theorem fresh_names_lt {body : Statement} (found : context.get? name = some body)
    (fresh : name ∉ stack)
    : (context.names.filter (· ∉ name :: stack)).length
      < (context.names.filter (· ∉ stack)).length := by
  have split : context.names.filter (· ∉ name :: stack)
      = (context.names.filter (· ∉ stack)).filter (· ≠ name) := by
    rw [List.filter_filter]
    apply List.filter_congr
    intro other _
    simp
  rw [split]
  apply List.length_filter_lt_length_iff_exists.mpr
  have declared : name ∈ context.names :=
    List.mem_map_of_mem ((get?_eq_some_iff context name body).mp found)
  exact ⟨name, List.mem_filter.mpr ⟨declared, by simpa using fresh⟩, by simp⟩

/-- The calls that a call comes to: itself, and behind it the calls of the declared body from
left to right, each with all that it comes to. A name that is being expanded is not expanded
again.
-/
def expansion (context : Context) (stack : List String) (name : String) : List CallSite :=
  ⟨stack, name⟩
    :: match _found : context.get? name with
      | none => []
      | some body =>
          if _fresh : name ∉ stack then body.calls.flatMap (expansion context (name :: stack))
          else []
termination_by (context.names.filter (· ∉ stack)).length
decreasing_by exact fresh_names_lt _found _fresh

theorem expansion_declared {body : Statement} (found : context.get? name = some body)
    (fresh : name ∉ stack)
    : context.expansion stack name
      = ⟨stack, name⟩ :: body.calls.flatMap (context.expansion (name :: stack)) := by
  rw [expansion]
  split
  · rename_i missing
    cases missing.symm.trans found
  · rename_i other eq
    cases eq.symm.trans found
    rw [dif_pos fresh]

theorem expansion_stopped (stopped : context.get? name = none ∨ name ∈ stack)
    : context.expansion stack name = [⟨stack, name⟩] := by
  rw [expansion]
  split
  · rfl
  · rename_i body found
    rcases stopped with missing | again
    · cases found.symm.trans missing
    · rw [dif_neg (not_not_intro again)]

theorem mem_expansion_self : ⟨stack, name⟩ ∈ context.expansion stack name := by
  rw [expansion]
  exact List.mem_cons_self

/-- Induction along an expansion: what holds where it stops, and of a declared name when it holds
of all calls of the body, holds of every name.
-/
theorem expansion_induction {motive : List String → String → Prop}
    (stopped
      : ∀ {stack name}, context.get? name = none ∨ name ∈ stack → motive stack name)
    (declared
      : ∀ {stack name body},
          context.get? name = some body
          → name ∉ stack
          → (∀ callee ∈ body.calls, motive (name :: stack) callee)
          → motive stack name)
    (stack : List String) (name : String)
    : motive stack name := by
  cases found : context.get? name with
  | none => exact stopped (.inl found)
  | some body =>
      by_cases fresh : name ∉ stack
      · apply declared found fresh
        intro callee _
        exact expansion_induction stopped declared (name :: stack) callee
      · exact stopped (.inr (Decidable.not_not.mp fresh))
termination_by (context.names.filter (· ∉ stack)).length
decreasing_by exact fresh_names_lt found fresh

/-- A call that a call comes to is reached from it, and so is it from every declaration that is
being expanded there and was not before.
-/
theorem reached_of_mem_expansion {site : CallSite} (member : site ∈ context.expansion stack name)
    : context.Reached [name] site.name
      ∧ ∀ outer ∈ site.stack,
          outer ∈ stack
          ∨ ∃ body, context.get? outer = some body ∧ context.Reached body.calls site.name := by
  revert site
  induction stack, name using context.expansion_induction with
  | stopped stopped =>
      intro site member
      rw [expansion_stopped stopped, List.mem_singleton] at member
      subst member
      exact ⟨.called (List.mem_singleton_self _), fun _ outside => .inl outside⟩
  | @declared stack name body found fresh ih =>
      intro site member
      rw [expansion_declared found fresh, List.mem_cons, List.mem_flatMap] at member
      rcases member with rfl | ⟨callee, called, below⟩
      · exact ⟨.called (List.mem_singleton_self _), fun _ outside => .inl outside⟩
      · obtain ⟨reached, inside⟩ := ih callee called below
        have fromBody : context.Reached body.calls site.name := by
          apply reached.trans
          intro other same
          exact .called (List.mem_singleton.mp same ▸ called)
        refine ⟨fromBody.trans fun other direct => ?_, ?_⟩
        · exact .through (.called (List.mem_singleton_self _)) found direct
        · intro outer expanding
          rcases inside outer expanding with earlier | deeper
          · rcases List.mem_cons.mp earlier with rfl | outside
            · exact .inr ⟨body, found, fromBody⟩
            · exact .inl outside
          · exact .inr deeper

/-- Behind a declared name that is not being expanded stand the calls of its body. -/
theorem mem_expansion_of_call {site : CallSite} (member : site ∈ context.expansion stack name)
    {body : Statement} (found : context.get? site.name = some body)
    (fresh : site.name ∉ site.stack) {callee : String} (called : callee ∈ body.calls)
    : ⟨site.name :: site.stack, callee⟩ ∈ context.expansion stack name := by
  revert site
  induction stack, name using context.expansion_induction with
  | stopped stopped =>
      intro site member found fresh
      rw [expansion_stopped stopped, List.mem_singleton] at member
      subst member
      rcases stopped with missing | again
      · cases missing.symm.trans found
      · exact (fresh again).elim
  | @declared stack name other outer outside ih =>
      intro site member found fresh
      rw [expansion_declared outer outside, List.mem_cons, List.mem_flatMap] at member ⊢
      rcases member with rfl | ⟨first, calledFirst, below⟩
      · cases outer.symm.trans found
        exact .inr ⟨callee, called, mem_expansion_self⟩
      · exact .inr ⟨first, calledFirst, ih first calledFirst below found fresh⟩

end Context

-----------------------------------------------------------------------------------------
-- Resolving reports the first call that offends
-----------------------------------------------------------------------------------------

/-- Looking through lists one behind the other is looking through each. -/
theorem findSome?_flatMap {α β γ : Type} {look : α → Option γ} {spread : α → List β}
    {find : β → Option γ} {items : List α}
    (same : ∀ item ∈ items, look item = (spread item).findSome? find)
    : items.findSome? look = (items.flatMap spread).findSome? find := by
  induction items with
  | nil => rfl
  | cons item rest ih =>
      rw [List.flatMap_cons, List.findSome?_append, List.findSome?_cons,
        same item List.mem_cons_self,
        ih fun other member => same other (List.mem_cons_of_mem _ member)]
      cases (spread item).findSome? find <;> rfl

namespace Plan

mutual

/-- A statement fails with its first call that fails, from left to right. -/
theorem failure?_ofStatement (resolve : Resolver) (s : Statement)
    : failure? (ofStatement resolve s) = s.calls.findSome? fun name => failure? (resolve name) := by
  cases s with
  | block children => exact failure?_ofAll resolve children
  | ifThen condition body =>
      rw [ofStatement, failure?_bind_pure, failure?_ofStatement resolve body, Statement.calls]
  | ifElse condition thenBody elseBody =>
      rw [ofStatement, failure?_bind_bind_pure, failure?_ofStatement resolve thenBody,
        failure?_ofStatement resolve elseBody, Statement.calls, List.findSome?_append]
  | whileDo condition body =>
      rw [ofStatement, failure?_bind_pure, failure?_ofStatement resolve body, Statement.calls]
  | call name => simp [ofStatement, Statement.calls]
termination_by sizeOf s

theorem failure?_ofAll (resolve : Resolver) (children : List Statement)
    : failure? (ofAll resolve children)
      = (Statement.callsOfAll children).findSome? fun name => failure? (resolve name) := by
  cases children with
  | nil => rfl
  | cons child rest =>
      rw [ofAll, failure?_bind_bind_pure, failure?_ofStatement resolve child,
        failure?_ofAll resolve rest, Statement.callsOfAll, List.findSome?_append]
termination_by sizeOf children

end

/-- A name that is not left is judged as its call is. -/
theorem failure?_ofName {context : Context} {stack : List String} {name : String}
    (stopped : context.get? name = none ∨ name ∈ stack)
    : failure? (ofName stack name) = CallSite.offence? context ⟨stack, name⟩ := by
  unfold ofName CallSite.offence?
  by_cases again : name ∈ stack
  · simp [again, failure?]
  · have missing := stopped.resolve_right again
    cases primitive : Primitive.ofWord? name with
    | none => simp [again, Context.contains, missing, failure?]
    | some p => simp [again, failure?]

/-- Resolving a name fails with the first call of its expansion that offends. The declarations
that are left and the stack make up the context, so a name that is missing among the former
is being expanded or was never declared.
-/
theorem failure?_resolve {context left : Context} {stack : List String} {name : String}
    (remaining : Remaining context stack left)
    : failure? (resolve left stack name)
      = (context.expansion stack name).findSome? (CallSite.offence? context) := by
  revert left
  induction stack, name using context.expansion_induction with
  | @stopped stack name stopped =>
      intro left remaining
      have missing : left.get? name = none := by
        rw [remaining name]
        split
        · rfl
        · exact stopped.resolve_right ‹_›
      rw [resolve_undeclared missing, Context.expansion_stopped stopped, failure?_ofName stopped,
        List.findSome?_singleton]
  | @declared stack name body found fresh ih =>
      intro left remaining
      have declared : left.get? name = some body := by
        rw [remaining name, if_neg fresh, found]
      have known : CallSite.offence? context ⟨stack, name⟩ = none := by
        simp [CallSite.offence?, fresh, Context.contains, found]
      rw [resolve_declared declared, failure?_ofStatement, Context.expansion_declared found fresh,
        List.findSome?_cons, known]
      exact findSome?_flatMap fun callee called => ih callee called (remaining.erase name)

mutual

/-- The plan of a statement depends on what its calls are resolved to, and on nothing else. -/
theorem ofStatement_congr {resolve other : Resolver} (s : Statement)
    (same : ∀ name ∈ s.calls, other name = resolve name)
    : ofStatement other s = ofStatement resolve s := by
  cases s with
  | block children => exact ofAll_congr children same
  | ifThen condition body => rw [ofStatement, ofStatement, ofStatement_congr body same]
  | ifElse condition thenBody elseBody =>
      rw [ofStatement, ofStatement,
        ofStatement_congr thenBody fun name member => same name (List.mem_append_left _ member),
        ofStatement_congr elseBody fun name member => same name (List.mem_append_right _ member)]
  | whileDo condition body => rw [ofStatement, ofStatement, ofStatement_congr body same]
  | call name => exact same name (List.mem_singleton_self name)
termination_by sizeOf s

theorem ofAll_congr {resolve other : Resolver} (children : List Statement)
    (same : ∀ name ∈ Statement.callsOfAll children, other name = resolve name)
    : ofAll other children = ofAll resolve children := by
  cases children with
  | nil => rfl
  | cons child rest =>
      rw [ofAll, ofAll,
        ofStatement_congr child fun name member => same name (List.mem_append_left _ member),
        ofAll_congr rest fun name member => same name (List.mem_append_right _ member)]
termination_by sizeOf children

end

/-- Contexts that agree on all that a name reaches resolve it in the same way, by induction on
the declarations that are left.
-/
theorem resolve_congr {context other : Context} {stack : List String} {name : String}
    (agree
      : ∀ reached, context.Reached [name] reached → other.get? reached = context.get? reached)
    : resolve other stack name = resolve context stack name := by
  have same := agree name (.called (List.mem_singleton_self name))
  cases found : context.get? name with
  | none => rw [resolve_undeclared found, resolve_undeclared (same.trans found)]
  | some body =>
      rw [resolve_declared found, resolve_declared (same.trans found)]
      apply ofStatement_congr body
      intro callee member
      apply resolve_congr
      intro reached below
      rw [Context.get?_erase, Context.get?_erase, agree reached (below.of_body found member)]
termination_by context.size
decreasing_by exact Context.size_erase_lt found

end Plan

-----------------------------------------------------------------------------------------
-- Whole programs
-----------------------------------------------------------------------------------------

namespace Program

/-- The calls that the body of a program comes to, in the order of their expansion. -/
def callSites (program : Program) : List CallSite :=
  program.body.calls.flatMap (program.context.expansion [])

/-- The names that are called from the body of a program, directly or through declared bodies. -/
def Reaches (program : Program) (name : String) : Prop :=
  program.context.Reached program.body.calls name

/-- Every name that is reached is declared or primitive, and no declared one comes back to
itself.
-/
structure Resolvable (program : Program) : Prop where
  known
    : ∀ name,
        program.Reaches name
        → (∃ body, program.context.get? name = some body)
          ∨ ∃ p, Primitive.ofWord? name = some p
  acyclic
    : ∀ name body,
        program.Reaches name
        → program.context.get? name = some body
        → ¬ program.context.Reached body.calls name

/-- What the error of a call says about it. -/
inductive Blamed (program : Program) (site : CallSite) : GenerateError → Prop
  | recursive {body} (expanding : site.name ∈ site.stack) (reached : program.Reaches site.name)
    (found : program.context.get? site.name = some body)
    (again : program.context.Reached body.calls site.name)
    : Blamed program site (.recursiveInstruction site.name)
  | unknown (reached : program.Reaches site.name)
    (missing : program.context.get? site.name = none)
    (notPrimitive : Primitive.ofWord? site.name = none)
    : Blamed program site (.unknownInstruction site.name)

variable {program : Program}

/-- The plan of a program fails with the first of its calls that offends. -/
theorem failure?_plan
    : failure? program.plan
      = program.callSites.findSome? (CallSite.offence? program.context) := by
  rw [plan, Plan.failure?_ofStatement]
  exact findSome?_flatMap fun name _ => Plan.failure?_resolve fun _ => by simp

/-- A call that the body comes to is reached, also from every declaration being expanded. -/
theorem reaches_of_callSite {site : CallSite} (member : site ∈ program.callSites)
    : program.Reaches site.name
      ∧ ∀ outer ∈ site.stack,
          ∃ body,
            program.context.get? outer = some body
            ∧ program.context.Reached body.calls site.name := by
  obtain ⟨name, called, below⟩ := List.mem_flatMap.mp member
  obtain ⟨reached, inside⟩ := Context.reached_of_mem_expansion below
  refine ⟨reached.trans fun other same => ?_, ?_⟩
  · exact .called (List.mem_singleton.mp same ▸ called)
  · intro outer expanding
    rcases inside outer expanding with impossible | deeper
    · cases impossible
    · exact deeper

theorem callSite_of_call {site : CallSite} (member : site ∈ program.callSites) {body : Statement}
    (found : program.context.get? site.name = some body) (fresh : site.name ∉ site.stack)
    {callee : String} (called : callee ∈ body.calls)
    : ⟨site.name :: site.stack, callee⟩ ∈ program.callSites := by
  obtain ⟨name, first, below⟩ := List.mem_flatMap.mp member
  exact List.mem_flatMap.mpr ⟨name, first, Context.mem_expansion_of_call below found fresh called⟩

/-- An offending call is blamed for what is wrong with it. -/
theorem blamed_of_offence {site : CallSite} {cause : GenerateError}
    (member : site ∈ program.callSites)
    (offence : site.offence? program.context = some cause)
    : program.Blamed site cause := by
  obtain ⟨reached, inside⟩ := reaches_of_callSite member
  unfold CallSite.offence? at offence
  split at offence
  · rename_i again
    cases offence
    obtain ⟨body, found, below⟩ := inside site.name again
    exact .recursive again reached found below
  · split at offence
    · cases offence
    · rename_i unknown
      cases offence
      simp only [Context.contains, not_or, Bool.not_eq_true, Option.isSome_eq_false_iff,
        Option.isNone_iff_eq_none] at unknown
      exact .unknown reached unknown.1 unknown.2

/-- A call with nothing wrong is not being expanded, and its name is known. -/
theorem known_of_fine {site : CallSite} (fine : site.offence? program.context = none)
    : site.name ∉ site.stack
      ∧ ((∃ body, program.context.get? site.name = some body)
        ∨ ∃ p, Primitive.ofWord? site.name = some p) := by
  unfold CallSite.offence? at fine
  split at fine
  · cases fine
  · rename_i fresh
    split at fine
    · rename_i known
      simp only [Context.contains, Option.isSome_iff_exists] at known
      exact ⟨fresh, known⟩
    · cases fine

/-- While no call offends, every name that is reached is called somewhere. -/
theorem callSite_of_reaches
    (fine : ∀ site ∈ program.callSites, site.offence? program.context = none) {name : String}
    (reached : program.Reaches name)
    : ∃ site ∈ program.callSites, site.name = name := by
  induction reached with
  | @called name member =>
      exact ⟨⟨[], name⟩, List.mem_flatMap.mpr ⟨name, member, Context.mem_expansion_self⟩, rfl⟩
  | through _ found member ih =>
      obtain ⟨site, listed, rfl⟩ := ih
      have fresh := (known_of_fine (fine site listed)).1
      exact ⟨_, callSite_of_call listed found fresh member, rfl⟩

/-- While no call offends, what a declared body reaches is called while that is expanded. -/
theorem callSite_within
    (fine : ∀ site ∈ program.callSites, site.offence? program.context = none) {site : CallSite}
    (listed : site ∈ program.callSites) {body : Statement}
    (found : program.context.get? site.name = some body) {name : String}
    (reached : program.context.Reached body.calls name)
    : ∃ inner ∈ program.callSites, inner.name = name ∧ site.name ∈ inner.stack := by
  induction reached with
  | called member =>
      have fresh := (known_of_fine (fine site listed)).1
      exact ⟨_, callSite_of_call listed found fresh member, rfl, List.mem_cons_self⟩
  | through _ foundMiddle member ih =>
      obtain ⟨inner, listedInner, rfl, expanding⟩ := ih
      have fresh := (known_of_fine (fine inner listedInner)).1
      exact ⟨_, callSite_of_call listedInner foundMiddle fresh member, rfl,
        List.mem_cons_of_mem _ expanding⟩

/-- No call offends exactly in the programs that can be resolved. -/
theorem fine_iff_resolvable
    : (∀ site ∈ program.callSites, site.offence? program.context = none)
      ↔ program.Resolvable := by
  constructor
  · intro fine
    refine ⟨?_, ?_⟩
    · intro name reached
      obtain ⟨site, listed, rfl⟩ := callSite_of_reaches fine reached
      exact (known_of_fine (fine site listed)).2
    · intro name body reached found again
      obtain ⟨site, listed, rfl⟩ := callSite_of_reaches fine reached
      -- Going round once, the name is called while it is being expanded.
      obtain ⟨inner, listedInner, same, expanding⟩ := callSite_within fine listed found again
      rw [← same] at expanding
      exact (known_of_fine (fine inner listedInner)).1 expanding
  · intro resolvable site listed
    cases offence : site.offence? program.context with
    | none => rfl
    | some cause =>
        cases blamed_of_offence listed offence with
        | recursive _ reached found again =>
            exact (resolvable.acyclic site.name _ reached found again).elim
        | unknown reached missing notPrimitive =>
            rcases resolvable.known site.name reached with ⟨body, found⟩ | ⟨p, primitive⟩
            · cases missing.symm.trans found
            · cases notPrimitive.symm.trans primitive

/-- A program has a plan exactly when it can be resolved. -/
theorem plan_iff_resolvable : (∃ plan, program.plan = .ok plan) ↔ program.Resolvable := by
  rw [← failure?_eq_none_iff, failure?_plan, List.findSome?_eq_none_iff]
  exact fine_iff_resolvable

/-- A plan that fails does so at the first call that offends. -/
theorem first_offence_of_plan {cause : GenerateError} (failed : program.plan = .error cause)
    : ∃ before site after,
        program.callSites = before ++ site :: after
        ∧ (∀ earlier ∈ before, earlier.offence? program.context = none)
        ∧ site.offence? program.context = some cause
        ∧ program.Blamed site cause := by
  rw [← failure?_eq_some_iff, failure?_plan, List.findSome?_eq_some_iff] at failed
  obtain ⟨before, site, after, listed, offence, fine⟩ := failed
  refine ⟨before, site, after, listed, fine, offence, blamed_of_offence ?_ offence⟩
  rw [listed]
  exact List.mem_append_right before List.mem_cons_self

/-- Declarations that are not reached do not change the plan. -/
theorem plan_congr {other : Context}
    (agree : ∀ name, program.Reaches name → other.get? name = program.context.get? name)
    : plan { program with context := other } = program.plan := by
  apply Plan.ofStatement_congr
  intro name member
  apply Plan.resolve_congr
  intro reached below
  apply agree
  exact below.trans fun _ same => .called (List.mem_singleton.mp same ▸ member)

/-- A shaped program with other declarations, the same as far as they are reached, is handed back
with the outcome of the first one, whatever those that are not reached look like.
-/
theorem outcome_congr (style : JumpStyle) (shaped : program.Shaped) {other : Context}
    (agree : ∀ name, program.Reaches name → other.get? name = program.context.get? name)
    : (generate style { program with context := other }).2 = (program.generate style).2 := by
  have same : planned style { program with context := other } = program.planned style := by
    simp only [planned, plan_congr agree]
  have returned : generate style { program with context := other }
      = ({ program with context := other }, planned style { program with context := other }) := by
    apply generate_of_reached style { program with context := other } shaped.block shaped.body
    intro reached body below found
    have inside : program.Reaches reached := below.of_agree agree
    exact shaped.get? ((agree reached inside).symm.trans found)
  rw [returned, generate_of_shaped style shaped, same]

/-- Generating code for a shaped program comes to an end by itself, and succeeds exactly when
every name that is reached is known and no declared one comes back to itself. Otherwise the
error is that of the first offending call in the order of expansion; a declared name is
never unknown, and declarations that are not reached have no say.
-/
theorem generate_settles_calls (style : JumpStyle) {program : Program} (shaped : program.Shaped)
    : (∀ depth,
        program.context.size ≤ depth
        → Generator.visit style (Context.store.expand style depth) (.start program.context)
            program.body
          = program.walk style)
      ∧ ((∃ compiled, (program.generate style).2 = .generated compiled) ↔ program.Resolvable)
      ∧ (¬ program.Resolvable
        → ∃ before site after cause,
            program.callSites = before ++ site :: after
            ∧ (∀ earlier ∈ before, earlier.offence? program.context = none)
            ∧ site.offence? program.context = some cause
            ∧ program.Blamed site cause
            ∧ (program.generate style).2 = .failed cause)
      ∧ (∀ name,
          (program.generate style).2 = .failed (.unknownInstruction name)
          → program.context.get? name = none)
      ∧ ∀ other : Context,
          (∀ name, program.Reaches name → other.get? name = program.context.get? name)
          → (generate style { program with context := other }).2 = (program.generate style).2 := by
  refine ⟨?_, ?_, ?_, ?_, fun other => outcome_congr style shaped⟩
  · intro depth enough
    exact Generator.visit_depth style enough program.body
  · rw [generate_of_shaped style shaped, ← plan_iff_resolvable]
    constructor
    · rintro ⟨compiled, generated⟩
      obtain ⟨plan, found, _⟩ := planned_eq_generated_iff.mp generated
      exact ⟨plan, found⟩
    · rintro ⟨plan, found⟩
      exact ⟨_, planned_eq_generated_iff.mpr ⟨plan, found, rfl⟩⟩
  · rw [generate_of_shaped style shaped, ← plan_iff_resolvable]
    intro none
    cases failed : program.plan with
    | ok plan => exact (none ⟨plan, failed⟩).elim
    | error cause =>
        obtain ⟨before, site, after, listed, fine, offence, blamed⟩ := first_offence_of_plan failed
        exact ⟨before, site, after, cause, listed, fine, offence, blamed,
          planned_eq_failed_iff.mpr failed⟩
  · rw [generate_of_shaped style shaped]
    intro name reported
    obtain ⟨_, site, _, _, _, _, blamed⟩ :=
      first_offence_of_plan (planned_eq_failed_iff.mp reported)
    cases blamed with
    | unknown _ missing _ => exact missing

/-- Two instructions that call each other, one that only calls itself, and an unknown name. -/
def chase : Program :=
  {
    name := "Chase"
    context :=
      .ofList
        [
          ("hunt", .block [.call "move", .call "seek"]),
          ("rest", .block [.call "rest"]),
          ("seek", .block [.ifThen .nextIsEnemy (.block [.call "hunt"])])
        ]
    body := .block [.call "skip", .call "hunt", .call "fly"]
  }

theorem generate_settles_calls_chase
    : chase.Shaped
      ∧ ¬ chase.Resolvable
      ∧ ∃ site,
          chase.Blamed site (.recursiveInstruction "hunt")
          ∧ (chase.generate .single).2 = .failed (.recursiveInstruction "hunt") := by
  have shaped : chase.Shaped := ⟨by decide, by decide, by decide⟩
  have hunt : chase.context.get? "hunt" = some (.block [.call "move", .call "seek"]) := by decide
  have seek : chase.context.get? "seek"
      = some (.block [.ifThen .nextIsEnemy (.block [.call "hunt"])]) := by
    decide
  have cyclic : ¬ chase.Resolvable := by
    intro resolvable
    exact resolvable.acyclic "hunt" _ (.called (by decide)) hunt
      (.through (.called (by decide)) seek (by decide))
  obtain ⟨_, site, _, cause, _, _, _, blamed, failed⟩ :=
    (generate_settles_calls .single shaped).2.2.1 cyclic
  have reported : (chase.generate .single).2 = .failed (.recursiveInstruction "hunt") := by
    decide
  cases failed.symm.trans reported
  exact ⟨shaped, cyclic, site, blamed, reported⟩

end Program

end AgentLang
