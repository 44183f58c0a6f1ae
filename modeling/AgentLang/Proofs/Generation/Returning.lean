import AgentLang.Proofs.Calls
import AgentLang.Proofs.Generation.HandingBack
import AgentLang.Proofs.Shape

/-! Walks that return. A walk over trees of the shape that the contracts ask breaks none of
them, and it comes to its end by itself: expansions that may stand deeper inside one another
than there are declarations change nothing.
-/

namespace AgentLang.Generator

variable {σ : Type}

-----------------------------------------------------------------------------------------
-- Shaped trees break no contract
-----------------------------------------------------------------------------------------

/-- Calls of a name break no contract from the given declarations on. -/
def Caller.Returns (call : Caller σ) (context : σ) (expanding : List String) (name : String)
    : Prop :=
  ∀ ⦃emitter : Emitter σ⦄,
    emitter.context = context
    → emitter.expanding = expanding
    → ∃ result, call emitter name = .ok result

/-- A walk returns when its first part does and what is made of that does. -/
theorem returns_bind {α β : Type} {first : Except Violation α} {next : α → Except Violation β}
    {value : α} (returned : first = .ok value) (rest : ∃ result, next value = .ok result)
    : ∃ result, first >>= next = .ok result := by
  obtain ⟨result, made⟩ := rest
  exact ⟨result, bind_eq_ok_iff.mpr ⟨value, returned, made⟩⟩

theorem Visit.returns_rebuild {α β : Type} {visit : Visit σ α} {assemble : α → Except Violation β}
    {tree : β} (assembled : assemble visit.tree = .ok tree)
    : ∃ result, visit.rebuild assemble = .ok result :=
  ⟨_, Visit.rebuild_eq_ok_iff.mpr ⟨tree, assembled, rfl⟩⟩

mutual

/-- The walk over a shaped statement returns if its calls do, by the constructs of the
statement: each is put together again from the parts it was taken into.
-/
theorem visit_returns {style : JumpStyle} {call : Caller σ} {context : σ}
    {expanding : List String} {resolve : Plan.Resolver}
    (realizes : call.Realizes style context expanding resolve)
    (emitter : Emitter σ) (s : Statement) (shaped : s.Shaped)
    (returns : ∀ name ∈ s.calls, call.Returns context expanding name)
    (sameContext : emitter.context = context) (sameExpanding : emitter.expanding = expanding)
    : ∃ result, visit style call emitter s = .ok result := by
  cases s with
  | block children =>
      obtain ⟨inner, walked⟩ :=
        visitAll_returns realizes emitter children shaped returns sameContext sameExpanding
      exact returns_bind walked (Visit.returns_rebuild rfl)
  | ifThen condition body =>
      obtain ⟨block, inside⟩ := shaped
      obtain ⟨inner, walked⟩ :=
        visit_returns realizes (emitter.jump (.jumpUnless condition) 0) body inside returns
          sameContext sameExpanding
      have h := visit_follows realizes body walked sameContext sameExpanding
      apply returns_bind walked
      apply Visit.returns_rebuild
      exact Statement.assembleIf_eq_ok_iff.mpr ⟨h.tree ▸ block, rfl⟩
  | ifElse condition thenBody elseBody =>
      obtain ⟨⟨block, inside⟩, blockElse, insideElse⟩ := shaped
      obtain ⟨first, walked⟩ :=
        visit_returns realizes (emitter.jump (.jumpUnless condition) 0) thenBody inside
          (fun name member => returns name (List.mem_append_left _ member)) sameContext
          sameExpanding
      have h := visit_follows realizes thenBody walked sameContext sameExpanding
      have putTogether (second : Statement) (same : second = elseBody)
          : Statement.assembleIfElse condition first.tree second
            = .ok (.ifElse condition first.tree second) :=
        Statement.assembleIfElse_eq_ok_iff.mpr ⟨h.tree ▸ block, same ▸ blockElse, rfl⟩
      apply returns_bind walked
      split
      · exact Visit.returns_rebuild (putTogether elseBody rfl)
      · -- Both styles go on with the second body from the same declarations.
        have onward (between : Emitter σ) (context' : between.context = first.emitter.context)
            (expanding' : between.expanding = first.emitter.expanding)
            : ∃ second,
                visit style call between elseBody = .ok second ∧ second.tree = elseBody := by
          have sameContext' := context'.trans (h.context.trans sameContext)
          have sameExpanding' := expanding'.trans (h.expanding.trans sameExpanding)
          obtain ⟨second, walkedElse⟩ :=
            visit_returns realizes between elseBody insideElse
              (fun name member => returns name (List.mem_append_right _ member)) sameContext'
              sameExpanding'
          exact ⟨second, walkedElse,
            (visit_follows realizes elseBody walkedElse sameContext' sameExpanding').tree⟩
        cases style with
        | single =>
            obtain ⟨second, walkedElse, same⟩ :=
              onward (first.emitter.patch emitter.slot) rfl rfl
            apply returns_bind walkedElse
            exact Visit.returns_rebuild (putTogether _ ((Visit.tree_close ..).trans same))
        | structured =>
            obtain ⟨second, walkedElse, same⟩ :=
              onward ((first.emitter.jump .jump 0).patch emitter.slot) rfl rfl
            apply returns_bind walkedElse
            exact Visit.returns_rebuild (putTogether _ ((Visit.tree_close ..).trans same))
  | whileDo condition body =>
      obtain ⟨block, inside⟩ := shaped
      obtain ⟨inner, walked⟩ :=
        visit_returns realizes (emitter.jump (.jumpUnless condition) 0) body inside returns
          sameContext sameExpanding
      have h := visit_follows realizes body walked sameContext sameExpanding
      apply returns_bind walked
      apply Visit.returns_rebuild
      rw [Visit.tree_close]
      exact Statement.assembleWhile_eq_ok_iff.mpr ⟨h.tree ▸ block, rfl⟩
  | call name =>
      obtain ⟨inner, called⟩ :=
        returns name (List.mem_singleton_self name) sameContext sameExpanding
      apply returns_bind called
      exact Visit.returns_rebuild (Statement.assembleCall_eq_ok_iff.mpr ⟨shaped, rfl⟩)
termination_by sizeOf s

theorem visitAll_returns {style : JumpStyle} {call : Caller σ} {context : σ}
    {expanding : List String} {resolve : Plan.Resolver}
    (realizes : call.Realizes style context expanding resolve)
    (emitter : Emitter σ) (children : List Statement) (shaped : Statement.ShapedAll children)
    (returns : ∀ name ∈ Statement.callsOfAll children, call.Returns context expanding name)
    (sameContext : emitter.context = context) (sameExpanding : emitter.expanding = expanding)
    : ∃ result, visitAll style call emitter children = .ok result := by
  cases children with
  | nil => exact ⟨_, rfl⟩
  | cons child rest =>
      obtain ⟨⟨noBlock, inside⟩, shapedRest⟩ := shaped
      obtain ⟨first, walked⟩ :=
        visit_returns realizes emitter child inside
          (fun name member => returns name (List.mem_append_left _ member)) sameContext
          sameExpanding
      have h := visit_follows realizes child walked sameContext sameExpanding
      apply returns_bind walked
      apply returns_bind (Statement.asChild_eq_ok_iff.mpr ⟨h.tree ▸ noBlock, rfl⟩)
      split
      · exact ⟨_, rfl⟩
      · obtain ⟨later, walkedRest⟩ :=
          visitAll_returns realizes first.emitter rest shapedRest
            (fun name member => returns name (List.mem_append_right _ member))
            (h.context.trans sameContext) (h.expanding.trans sameExpanding)
        exact returns_bind walkedRest (Visit.returns_rebuild rfl)
termination_by sizeOf children

end

/-- A call returns when every body it comes to is shaped, by induction on the depth. -/
theorem expand_returns (style : JumpStyle) (depth : Nat) {context : Context}
    (expanding : List String) (enough : context.size ≤ depth) {name : String}
    (shaped
      : ∀ reached body,
          context.Reached [name] reached → context.get? reached = some body → body.Shaped)
    : (Context.store.expand style depth).Returns context expanding name := by
  induction depth generalizing context expanding name with
  | zero => exact fun _ _ _ => ⟨_, rfl⟩
  | succ depth ih =>
      intro emitter sameContext sameExpanding
      subst sameContext sameExpanding
      simp only [Store.expand, Context.store_find?]
      split
      · exact ⟨_, rfl⟩
      · rename_i body found
        have fewer : (emitter.context.erase name).size ≤ depth := by
          have := Context.size_erase_lt found
          omega
        have inner {callee : String} (member : callee ∈ body.calls)
            : (Context.store.expand style depth).Returns (emitter.context.erase name)
                (name :: emitter.expanding) callee := by
          apply ih (name :: emitter.expanding) fewer
          intro reached other below declared
          rw [Context.get?_erase] at declared
          split at declared
          · cases declared
          · exact shaped reached other (below.of_body found member) declared
        obtain ⟨result, walked⟩ :=
          visit_returns (expand_realizes style depth (name :: emitter.expanding) fewer)
            (emitter.beginCall Context.store name) body
            (shaped name body (.called (List.mem_singleton_self name)) found)
            (fun _ member => inner member) rfl rfl
        exact returns_bind walked ⟨_, rfl⟩

/-- The walk over a shaped statement returns when every body its calls come to is shaped. -/
theorem visit_expand_returns (style : JumpStyle) {depth : Nat} (emitter : Emitter Context)
    (enough : emitter.context.size ≤ depth) {s : Statement} (shaped : s.Shaped)
    (declared
      : ∀ reached body,
          emitter.context.Reached s.calls reached
          → emitter.context.get? reached = some body
          → body.Shaped)
    : ∃ result, visit style (Context.store.expand style depth) emitter s = .ok result := by
  apply visit_returns (expand_realizes style depth emitter.expanding enough) emitter s shaped
  · intro name member
    apply expand_returns style depth emitter.expanding enough
    intro reached body below found
    refine declared reached body (below.trans ?_) found
    intro other same
    exact .called (List.mem_singleton.mp same ▸ member)
  · rfl
  · rfl

-----------------------------------------------------------------------------------------
-- The depth does not matter
-----------------------------------------------------------------------------------------

mutual

/-- Walks whose calls agree from the given declarations on agree: each part of a statement hands
the declarations on as it found them.
-/
theorem visit_congr {style : JumpStyle} {call other : Caller σ} {context : σ}
    {expanding : List String} {resolve : Plan.Resolver}
    (realizes : call.Realizes style context expanding resolve)
    (agree
      : ∀ emitter name,
          emitter.context = context
          → emitter.expanding = expanding
          → other emitter name = call emitter name)
    (emitter : Emitter σ) (s : Statement) (sameContext : emitter.context = context)
    (sameExpanding : emitter.expanding = expanding)
    : visit style other emitter s = visit style call emitter s := by
  cases s with
  | block children =>
      simp only [visit, visitAll_congr realizes agree emitter children sameContext sameExpanding]
  | ifThen condition body =>
      simp only [visit,
        visit_congr realizes agree (emitter.jump (.jumpUnless condition) 0) body sameContext
          sameExpanding]
  | ifElse condition thenBody elseBody =>
      simp only [visit,
        visit_congr realizes agree (emitter.jump (.jumpUnless condition) 0) thenBody sameContext
          sameExpanding]
      apply bind_congr_of_ok
      intro first walked
      have h := visit_follows realizes thenBody walked sameContext sameExpanding
      split
      · rfl
      · cases style with
        | single =>
            rw [visit_congr realizes agree (first.emitter.patch emitter.slot) elseBody
              (h.context.trans sameContext) (h.expanding.trans sameExpanding)]
        | structured =>
            rw [visit_congr realizes agree ((first.emitter.jump .jump 0).patch emitter.slot)
              elseBody (h.context.trans sameContext) (h.expanding.trans sameExpanding)]
  | whileDo condition body =>
      simp only [visit,
        visit_congr realizes agree (emitter.jump (.jumpUnless condition) 0) body sameContext
          sameExpanding]
  | call name => simp only [visit, agree emitter name sameContext sameExpanding]
termination_by sizeOf s

theorem visitAll_congr {style : JumpStyle} {call other : Caller σ} {context : σ}
    {expanding : List String} {resolve : Plan.Resolver}
    (realizes : call.Realizes style context expanding resolve)
    (agree
      : ∀ emitter name,
          emitter.context = context
          → emitter.expanding = expanding
          → other emitter name = call emitter name)
    (emitter : Emitter σ) (children : List Statement) (sameContext : emitter.context = context)
    (sameExpanding : emitter.expanding = expanding)
    : visitAll style other emitter children = visitAll style call emitter children := by
  cases children with
  | nil => rfl
  | cons child rest =>
      simp only [visitAll, visit_congr realizes agree emitter child sameContext sameExpanding]
      apply bind_congr_of_ok
      intro first walked
      have h := visit_follows realizes child walked sameContext sameExpanding
      rw [visitAll_congr realizes agree first.emitter rest (h.context.trans sameContext)
        (h.expanding.trans sameExpanding)]
termination_by sizeOf children

end

theorem expand_undeclared {style : JumpStyle} {emitter : Emitter Context} {name : String}
    (missing : emitter.context.get? name = none) (depth : Nat)
    : Context.store.expand style depth emitter name = .ok (leaf emitter name) := by
  cases depth with
  | zero => rfl
  | succ depth => simp only [Store.expand, Context.store_find?, missing]

/-- Calls do not depend on a depth that is not less than the number of declarations, by
induction on the depth.
-/
theorem expand_depth {style : JumpStyle} {depth other : Nat} {emitter : Emitter Context}
    (enough : emitter.context.size ≤ depth) (enough' : emitter.context.size ≤ other)
    (name : String)
    : Context.store.expand style other emitter name
      = Context.store.expand style depth emitter name := by
  cases found : emitter.context.get? name with
  | none => rw [expand_undeclared found, expand_undeclared found]
  | some body =>
      have fewer := Context.size_erase_lt found
      obtain ⟨depth, rfl⟩ : ∃ less, depth = less + 1 := ⟨depth - 1, by omega⟩
      obtain ⟨other, rfl⟩ : ∃ less, other = less + 1 := ⟨other - 1, by omega⟩
      have left : (emitter.context.erase name).size ≤ depth := by omega
      simp only [Store.expand, Context.store_find?, found]
      rw [visit_congr (expand_realizes style depth (name :: emitter.expanding) left) ?_
        (emitter.beginCall Context.store name) body rfl rfl]
      intro inner callee sameContext _
      exact expand_depth (by rw [sameContext]; omega) (by rw [sameContext]; omega) callee
termination_by depth

/-- The walk over a statement does not depend on such a depth. -/
theorem visit_depth (style : JumpStyle) {depth : Nat} {emitter : Emitter Context}
    (enough : emitter.context.size ≤ depth) (s : Statement)
    : visit style (Context.store.expand style depth) emitter s
      = visit style (Context.store.expand style emitter.context.size) emitter s := by
  apply visit_congr (expand_realizes style _ emitter.expanding (Nat.le_refl _)) _ emitter s rfl rfl
  intro inner name sameContext _
  exact expand_depth (Nat.le_of_eq (by rw [sameContext])) (by rwa [sameContext]) name

end AgentLang.Generator

namespace AgentLang.Program

/-- A program whose body is a shaped block, and whose calls come to shaped bodies only, is handed
back with the outcome that was planned.
-/
theorem generate_of_reached (style : JumpStyle) (program : Program)
    (block : program.body.kind = .block) (shaped : program.body.Shaped)
    (declared
      : ∀ reached body,
          program.context.Reached program.body.calls reached
          → program.context.get? reached = some body
          → body.Shaped)
    : program.generate style = (program, program.planned style) := by
  obtain ⟨result, walked⟩ : ∃ result, program.walk style = .ok result :=
    Generator.visit_expand_returns style (.start program.context) (Nat.le_refl _) shaped declared
  exact generate_of_walk walked block

theorem Shaped.get? {program : Program} (shaped : program.Shaped) {name : String}
    {body : Statement} (found : program.context.get? name = some body)
    : body.Shaped :=
  shaped.declared _ ((Context.get?_eq_some_iff program.context name body).mp found)

/-- A shaped program is handed back with the outcome that was planned. -/
theorem generate_of_shaped (style : JumpStyle) {program : Program} (shaped : program.Shaped)
    : program.generate style = (program, program.planned style) :=
  generate_of_reached style program shaped.block shaped.body fun _ _ _ found => shaped.get? found

/-- A plan ends in code or in an error of the program. -/
theorem planned_ne_broken (style : JumpStyle) (program : Program) (violation : Violation)
    : program.planned style ≠ .broken violation := by
  unfold planned
  cases program.plan <;> nofun

/-- Generating the code of a shaped program breaks no contract. -/
theorem generate_ne_broken (style : JumpStyle) {program : Program} (shaped : program.Shaped)
    (violation : Violation)
    : (program.generate style).2 ≠ .broken violation := by
  rw [generate_of_shaped style shaped]
  exact planned_ne_broken style program violation

end AgentLang.Program
