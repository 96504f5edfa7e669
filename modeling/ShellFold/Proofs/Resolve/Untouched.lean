import ShellFold.Proofs.Resolve.Assignments
import ShellFold.Proofs.Resolve.Preserved
import ShellFold.Proofs.Resolve.Simulation
import ShellFold.Safety

/-!
# Trees without anything to expand

In a tree whose words the scanner leaves untouched nothing is asked of the oracle but the values of
some assignments. Such a tree that the pre-filter lets through fails to be resolved only for the
assignments in it: they are refused in front of a command and under a condition, which the
pre-filter does not look at (`resolve_untouched_iff`).
-/

set_option autoImplicit false

namespace ShellFold

/-! ## Parts -/

/-- The part is let through with the node, and its words and assignments are among those of the
node. -/
structure Node.Covers (node part : Node) : Prop where
  safe : node.isSafe = true → part.isSafe = true
  positions : part.positions ⊆ node.positions
  assignments : part.assignments ⊆ node.assignments

section

variable {node part : Node}

theorem Node.covers_stage {items : List Node} {background : Bool} (h : part ∈ items) :
    (pipe items background).Covers part := by
  induction items with
  | nil => cases h
  | cons item items ih =>
    rcases List.mem_cons.1 h with rfl | h
    · refine ⟨fun hsafe => ?_, List.subset_append_left _ _, List.subset_append_left _ _⟩
      rw [isSafe, areSafe, Bool.and_eq_true] at hsafe
      exact hsafe.1
    · obtain ⟨hsafe, hpositions, hassignments⟩ := ih h
      refine ⟨fun hall => hsafe ?_, List.subset_append_of_subset_right _ hpositions,
        List.subset_append_of_subset_right _ hassignments⟩
      rw [isSafe, areSafe, Bool.and_eq_true] at hall
      exact hall.2

theorem Node.covers_body {argument : Word} {arms : List Arm}
    (h : part ∈ arms.filterMap Arm.body?) : (caseOf argument arms).Covers part := by
  induction arms with
  | nil => cases h
  | cons arm arms ih =>
    obtain ⟨patterns, body⟩ := arm
    have hlater : (caseOf argument arms).Covers part →
        (caseOf argument (.mk patterns body :: arms)).Covers part := by
      rintro ⟨hsafe, hpositions, hassignments⟩
      refine ⟨fun hall => hsafe ?_, List.Subset.trans hpositions fun p hp => ?_,
        List.subset_append_of_subset_right _ hassignments⟩
      · rw [isSafe, Arm.areSafe, Bool.and_eq_true, Bool.and_eq_true] at hall
        rw [isSafe, hall.1, hall.2.2]
        rfl
      · simp only [positions, Arm.positions, List.mem_cons, List.mem_append] at hp ⊢
        exact hp.imp_right fun hp => .inr (.inr hp)
    cases body with
    | none => exact hlater (ih h)
    | some body =>
      rcases List.mem_cons.1 h with rfl | h
      · refine ⟨fun hall => ?_, fun p hp => ?_, List.subset_append_left _ _⟩
        · rw [isSafe, Arm.areSafe, Bool.and_eq_true, Bool.and_eq_true, Bool.and_eq_true] at hall
          exact hall.2.1.2
        · exact .tail _ (List.mem_append_right _ (List.mem_append_left _ hp))
      · exact hlater (ih h)

theorem Node.binds_of_isSafe (h : node.isSafe = true) : node.binds = false := by
  cases node <;> first | rfl | cases h

/-- A node that binds nothing covers its parts. -/
theorem Node.covers_part (h : node.binds = false) {i : Nat} (hi : node.parts[i]? = some part) :
    node.Covers part := by
  have hpart := List.mem_of_getElem? hi
  cases node with
  | command _ | arithmetic _ | test _ => cases hpart
  | pipe items _ => exact covers_stage hpart
  | caseOf _ arms => exact covers_body hpart
  | negation _ | timed _ _ =>
    rw [List.mem_singleton.1 hpart]
    exact ⟨id, .refl _, .refl _⟩
  | subshell _ _ | background _ _ | redirected _ _ | group _ _ =>
    rw [List.mem_singleton.1 hpart]
    refine ⟨fun hsafe => ?_, List.subset_append_left _ _, .refl _⟩
    rw [isSafe, Bool.and_eq_true] at hsafe
    exact hsafe.1
  | conjunction _ _ | disjunction _ _ | sequence _ _ | whileLoop _ _ =>
    rcases List.mem_cons.1 hpart with rfl | hpart
    · refine ⟨fun hsafe => ?_, List.subset_append_left _ _, List.subset_append_left _ _⟩
      rw [isSafe, Bool.and_eq_true] at hsafe
      exact hsafe.1
    · rw [List.mem_singleton.1 hpart]
      refine ⟨fun hsafe => ?_, List.subset_append_right _ _, List.subset_append_right _ _⟩
      rw [isSafe, Bool.and_eq_true] at hsafe
      exact hsafe.2
  | conditional _ _ elseBranch =>
    rcases List.mem_cons.1 hpart with rfl | hpart
    · refine ⟨fun hsafe => ?_, List.subset_append_left _ _, List.subset_append_left _ _⟩
      rw [isSafe, Bool.and_eq_true, Bool.and_eq_true] at hsafe
      exact hsafe.1.1
    · rcases List.mem_cons.1 hpart with rfl | hpart
      · refine ⟨fun hsafe => ?_, ?_, ?_⟩
        · rw [isSafe, Bool.and_eq_true, Bool.and_eq_true] at hsafe
          exact hsafe.1.2
        · exact List.subset_append_of_subset_right _ (List.subset_append_left _ _)
        · exact List.subset_append_of_subset_right _ (List.subset_append_left _ _)
      · rw [Option.mem_toList.1 hpart]
        refine ⟨fun hsafe => ?_, ?_, ?_⟩
        · rw [isSafe, Bool.and_eq_true] at hsafe
          exact hsafe.2
        · exact List.subset_append_of_subset_right _ (List.subset_append_right _ _)
        · exact List.subset_append_of_subset_right _ (List.subset_append_right _ _)
  | function _ _ | forLoop _ _ _ | select _ _ _ | arithmeticFor _ _ _ _ | coprocess _ _ =>
    cases h

end

/-- The assignment has a name, and a value that can be written; where a backslash escapes a literal,
the value can be expanded nonetheless. -/
structure Assignment.IsResolvable (a : Assignment) : Prop where
  name : Text.isName a.name = true
  value : a.value.IsClean
  expands : a.value.escapesLiteral = true →
    ∀ scope : Scope, (scope.expandWord .noSplit a.value).isOk = true

/-- The node is let through, has nothing to expand, and assigns only where it may under a flow. -/
structure Node.IsResolvable (flow : Flow) (node : Node) : Prop where
  safe : node.isSafe = true
  untouched : ∀ p ∈ node.positions, p.1.scan = .ok .untouched
  assigns : ∀ a ∈ node.assignments, a.IsResolvable
  plainly : ∀ path c, node.part? path = some (.command c) → c.assignments ≠ [] →
    c.arguments = [] ∧ flow = .always ∧ ¬ node.IsGuarded path

theorem Node.IsResolvable.part {flow : Flow} {node part : Node} (h : node.IsResolvable flow)
    {i : Nat} (hi : node.parts[i]? = some part) : part.IsResolvable (node.flowOf flow i) := by
  have hcovers := Node.covers_part (Node.binds_of_isSafe h.safe) hi
  refine ⟨hcovers.safe h.safe, fun p hp => h.untouched p (hcovers.positions hp),
    fun a ha => h.assigns a (hcovers.assignments ha), fun path c hpart hassigns => ?_⟩
  obtain ⟨harguments, hflow, hguarded⟩ := h.plainly (i :: path) c
    (by rw [Node.part?_cons hi, hpart]) hassigns
  rw [Node.isGuarded_cons hi, not_or, Bool.not_eq_true] at hguarded
  exact ⟨harguments, Node.flowOf_eq_always.2 ⟨hflow, hguarded.1⟩, hguarded.2⟩

/-! ## Evaluation -/

namespace Direct

variable {α β : Type}

/-- In every scope without NUL the evaluation succeeds and leaves a scope without NUL. -/
def Succeeds (x : Direct α) : Prop :=
  ∀ scope, scope.IsClean → ∃ a after, x scope = .ok (a, after) ∧ after.IsClean

namespace Succeeds

variable {x : Direct α} {f : α → Direct β}

theorem pure (a : α) : Succeeds (Pure.pure a) := fun scope h => ⟨a, scope, rfl, h⟩

theorem bind (hx : Succeeds x) (hf : ∀ a, Succeeds (f a)) : Succeeds (x >>= f) := by
  intro scope h
  obtain ⟨a, mid, hmid, hclean⟩ := hx scope h
  rw [bind_ok hmid]
  exact hf a mid hclean

theorem onCopy (hx : Succeeds x) : Succeeds (Direct.onCopy x) := by
  intro scope h
  obtain ⟨a, last, hlast, -⟩ := hx scope h
  exact ⟨a, scope, onCopy_ok hlast, h⟩

end Succeeds

end Direct

open Direct (Succeeds)

theorem Scope.IsClean.withValue {scope : Scope} (h : scope.IsClean) (name : Text) {value : Text}
    (hvalue : '\x00' ∉ value) :
    Scope.IsClean { scope with vars := scope.vars.withValue name value } where
  value other u hu := by
    rw [Scope.value?, Variables.value?, Variables.withValue, Variables.get?_insert] at hu
    split at hu
    · cases hu
      exact hvalue
    · exact h.value other u hu
  positional := h.positional
  options := h.options

/-! ## Words, redirections and conditional expressions -/

theorem Word.direct_untouched {w : Word} (h : w.scan = .ok .untouched) (mode : Mode) :
    w.direct mode = pure w := by
  rw [direct, h]
  rfl

theorem Word.succeeds_direct {w : Word} (h : w.scan = .ok .untouched) (mode : Mode) :
    Succeeds (w.direct mode) := by
  rw [w.direct_untouched h]
  exact .pure w

theorem Word.succeeds_directEach {mode : Mode} {ws : List Word}
    (h : ∀ p ∈ ws.map fun w => (w, mode), p.1.scan = .ok .untouched) :
    Succeeds (Word.directEach mode ws) := by
  induction ws with
  | nil => exact .pure []
  | cons w ws ih =>
    rw [List.map_cons, List.forall_mem_cons] at h
    exact .bind (succeeds_direct h.1 mode) fun _ => .bind (ih h.2) fun _ => .pure _

theorem Word.succeeds_directArguments {ws : List Word}
    (h : ∀ p ∈ ws.map fun w => (w, Mode.split), p.1.scan = .ok .untouched) :
    Succeeds (Word.directArguments ws) := by
  induction ws with
  | nil => exact .pure []
  | cons w ws ih =>
    rw [List.map_cons, List.forall_mem_cons] at h
    have hargument : Succeeds w.directArgument := by
      rw [directArgument, h.1]
      exact .pure [w]
    exact .bind hargument fun _ => .bind (ih h.2) fun _ => .pure _

theorem Word.succeeds_directOption {operator : Option Word}
    (h : ∀ p ∈ operator.toList.map fun w => (w, Mode.noSplit), p.1.scan = .ok .untouched) :
    Succeeds (Word.directOption operator) := by
  cases operator with
  | none => exact .pure none
  | some w => exact .bind (succeeds_direct (h _ (.head _)) .noSplit) fun _ => .pure _

/-- A word that expands to one text. -/
theorem Word.directText_ok {w : Word} {mode : Mode} {value : Text} {scope : Scope}
    (h : scope.expandWord mode w = .ok [value]) : w.directText mode scope = .ok (value, scope) := by
  have hexpand : Direct.expand w mode scope = .ok ([value], scope) := by
    show (scope.expandWord mode w).map (fun fields => (fields, scope)) = _
    rw [h]
    rfl
  rw [directText, Direct.bind_ok hexpand]
  rfl

theorem Redirection.succeeds_direct {r : Redirection} (hsafe : r.isSafe = true)
    (h : ∀ p ∈ r.positions, p.1.scan = .ok .untouched) : Succeeds r.direct := by
  cases r with
  | file operator descriptor target =>
    cases descriptor with
    | fixed number => exact .bind (Word.succeeds_direct (h _ (.head _)) .target) fun _ => .pure _
    | runtime name => cases hsafe
  | heredoc kind descriptor body =>
    cases descriptor with
    | fixed number =>
      cases kind with
      | expanding => exact .bind (Word.succeeds_direct (h _ (.head _)) .heredoc) fun _ => .pure _
      | literal => exact .pure _
    | runtime name => cases kind <;> cases hsafe
  | duplicate operator descriptor target => cases hsafe
  | close descriptor => cases hsafe

theorem Redirection.succeeds_directAll {rs : List Redirection} (hsafe : rs.all isSafe = true)
    (h : ∀ p ∈ rs.flatMap positions, p.1.scan = .ok .untouched) :
    Succeeds (Redirection.directAll rs) := by
  induction rs with
  | nil => exact .pure []
  | cons r rs ih =>
    rw [List.all_cons, Bool.and_eq_true] at hsafe
    rw [List.flatMap_cons, List.forall_mem_append] at h
    exact .bind (succeeds_direct hsafe.1 h.1) fun _ => .bind (ih hsafe.2 h.2) fun _ => .pure _

mutual

theorem Test.succeeds_direct : ∀ {t : Test}, (∀ p ∈ t.positions, p.1.scan = .ok .untouched) →
    Succeeds t.direct
  | .mk operator left right invert, h => by
    rw [Test.positions, List.forall_mem_append, List.forall_mem_append] at h
    rw [Test.direct]
    refine .bind (Word.succeeds_directOption h.1) fun _ => ?_
    refine .bind (Operand.succeeds_directOption h.2.1) fun _ => ?_
    exact .bind (Operand.succeeds_directOption h.2.2) fun _ => .pure _

theorem Operand.succeeds_directOption : ∀ {o : Option Operand},
    (∀ p ∈ Operand.positions? o, p.1.scan = .ok .untouched) → Succeeds (Operand.directOption o)
  | none, _ => .pure none
  | some (.word _), h => .bind (Word.succeeds_direct (h _ (.head _)) .noSplit) fun _ => .pure _
  | some (.nested _), h => .bind (Test.succeeds_direct h) fun _ => .pure _

end

/-! ## Commands and trees -/

/-- The value of an assignment is found without a change to the scope, and can be written. -/
theorem Assignment.IsResolvable.directValue {a : Assignment} (h : a.IsResolvable)
    (huntouched : a.value.scan = .ok .untouched) {scope : Scope} (hscope : scope.IsClean) :
    ∃ w value, a.value.directValue scope = .ok ((w, value), scope) ∧ '\x00' ∉ value := by
  rw [Word.directValue, huntouched]
  -- what is left once the scanner's verdict is known
  show ∃ w value, (if a.value.isPlain .untouched then pure (a.value, a.value.value)
    else a.value.directText .noSplit >>= fun value => pure (.literal value, value) :
      Direct (Word × Text)) scope = .ok ((w, value), scope) ∧ '\x00' ∉ value
  split
  · exact ⟨_, _, rfl, h.value⟩
  · have hexpands : (scope.expandWord .noSplit a.value).isOk = true := by
      cases hescapes : a.value.escapesLiteral with
      | true => exact h.expands hescapes scope
      | false => exact scope.isOk_expandWord_of_untouched .noSplit huntouched hescapes h.value
    obtain ⟨fields, hfields⟩ := isOk_iff.1 hexpands
    obtain ⟨source, -, hexpand⟩ := bind_eq_ok.1 hfields
    obtain ⟨value, rfl⟩ := List.length_eq_one_iff.1 (Scope.length_expand hexpand (by decide))
    have hclean := hscope.expandWord h.value hfields value (.head _)
    rw [Direct.bind_ok (Word.directText_ok hfields)]
    exact ⟨_, _, rfl, hclean⟩

theorem Assignment.succeeds_directAll {assignments : List Assignment}
    (h : ∀ a ∈ assignments, a.IsResolvable)
    (huntouched : ∀ p ∈ assignments.map fun a => (a.value, Mode.noSplit),
      p.1.scan = .ok .untouched) : Succeeds (Assignment.directAll assignments) := by
  induction assignments with
  | nil => exact .pure []
  | cons a rest ih =>
    rw [List.forall_mem_cons] at h
    rw [List.map_cons, List.forall_mem_cons] at huntouched
    intro scope hscope
    obtain ⟨w, value, hvalue, hnul⟩ := h.1.directValue huntouched.1 hscope
    have hrest : Succeeds (directAll rest >>= fun rest => pure ({ a with value := w } :: rest)) :=
      .bind (ih h.2 huntouched.2) fun _ => .pure _
    obtain ⟨assignments, after, hafter, hclean⟩ := hrest _ (hscope.withValue a.name hnul)
    refine ⟨assignments, after, ?_, hclean⟩
    rw [directAll, Direct.bind_ok hvalue]
    show (Direct.assign a.name value >>= fun _ => _) scope = _
    rw [Direct.bind_ok (Direct.assign_ok h.1.name hnul scope)]
    exact hafter

theorem Command.succeeds_direct {flow : Flow} {c : Command}
    (h : Node.IsResolvable flow (.command c)) : Succeeds (c.direct flow) := by
  have huntouched := h.untouched
  have hsafe := h.safe
  rw [Node.positions, positions, List.forall_mem_append, List.forall_mem_append] at huntouched
  rw [Node.isSafe, isSafe, Bool.and_eq_true] at hsafe
  have hassignments : Succeeds (c.directAssignments flow) := by
    rw [directAssignments]
    by_cases hassigns : c.assignments = []
    · rw [if_pos hassigns]
      exact .pure []
    · obtain ⟨harguments, rfl, -⟩ := h.plainly [] c rfl hassigns
      rw [if_neg hassigns, if_neg (not_not.2 harguments), if_neg (by decide)]
      exact Assignment.succeeds_directAll h.assigns huntouched.1
  refine .bind hassignments fun _ => ?_
  refine .bind (Word.succeeds_directArguments huntouched.2.1) fun _ => ?_
  exact .bind (Redirection.succeeds_directAll hsafe.2 huntouched.2.2) fun _ => .pure _

mutual

theorem Node.succeeds_directIn : ∀ {flow : Flow} {node : Node}, node.IsResolvable flow →
    Succeeds (node.directIn flow)
  | _, .command c, h => .bind (c.succeeds_direct h) fun _ => .pure _
  | flow, .pipe items background, h => by
    refine .bind (Node.succeeds_directStages fun item hitem => ?_) fun _ => .pure _
    obtain ⟨i, hi⟩ := List.mem_iff_getElem?.1 hitem
    exact h.part hi
  | _, .subshell body redirections, h | _, .background body redirections, h => by
    have hsafe := h.safe
    have huntouched := h.untouched
    rw [Node.isSafe, Bool.and_eq_true] at hsafe
    rw [Node.positions, List.forall_mem_append] at huntouched
    refine .bind (.onCopy (Node.succeeds_directIn (h.part (i := 0) rfl))) fun _ => ?_
    exact .bind (Redirection.succeeds_directAll hsafe.2 huntouched.2) fun _ => .pure _
  | _, .redirected body redirections, h | _, .group body redirections, h => by
    have hsafe := h.safe
    have huntouched := h.untouched
    rw [Node.isSafe, Bool.and_eq_true] at hsafe
    rw [Node.positions, List.forall_mem_append] at huntouched
    refine .bind (Node.succeeds_directIn (h.part (i := 0) rfl)) fun _ => ?_
    exact .bind (Redirection.succeeds_directAll hsafe.2 huntouched.2) fun _ => .pure _
  | _, .conjunction left right, h | _, .disjunction left right, h | _, .sequence left right, h =>
    .bind (Node.succeeds_directIn (h.part (i := 0) rfl)) fun _ =>
      .bind (Node.succeeds_directIn (h.part (i := 1) rfl)) fun _ => .pure _
  | _, .negation body, h | _, .timed _ body, h =>
    .bind (Node.succeeds_directIn (h.part (i := 0) rfl)) fun _ => .pure _
  | _, .whileLoop test body, h =>
    .bind (Node.succeeds_directIn (h.part (i := 0) rfl)) fun _ =>
      .bind (Node.succeeds_directIn (h.part (i := 1) rfl)) fun _ => .pure _
  | _, .conditional condition thenBranch elseBranch, h => by
    refine .bind (Node.succeeds_directIn (h.part (i := 0) rfl)) fun _ => ?_
    refine .bind (Node.succeeds_directIn (h.part (i := 1) rfl)) fun _ => ?_
    refine .bind (Node.succeeds_directOption fun branch hbranch => ?_) fun _ => .pure _
    subst hbranch
    exact h.part (i := 2) rfl
  | _, .caseOf argument arms, h => by
    have huntouched := h.untouched
    rw [Node.positions, List.forall_mem_cons] at huntouched
    refine .bind (Word.succeeds_direct huntouched.1 .noSplit) fun _ => ?_
    refine .bind (Arm.succeeds_directAll huntouched.2 fun body hbody => ?_) fun _ => .pure _
    obtain ⟨i, hi⟩ := List.mem_iff_getElem?.1 hbody
    exact h.part hi
  | _, .arithmetic body, h => .bind (Word.succeeds_directEach h.untouched) fun _ => .pure _
  | _, .test t, h => .bind (Test.succeeds_direct h.untouched) fun _ => .pure _
  | _, .function _ _, h | _, .forLoop _ _ _, h | _, .select _ _ _, h
  | _, .arithmeticFor _ _ _ _, h | _, .coprocess _ _, h => by cases h.safe

theorem Node.succeeds_directStages : ∀ {flow : Flow} {nodes : List Node},
    (∀ node ∈ nodes, node.IsResolvable flow) → Succeeds (Node.directStages flow nodes)
  | _, [], _ => .pure []
  | _, node :: rest, h => by
    rw [List.forall_mem_cons] at h
    refine .bind (.onCopy (Node.succeeds_directIn h.1)) fun _ => ?_
    exact .bind (Node.succeeds_directStages h.2) fun _ => .pure _

theorem Node.succeeds_directOption : ∀ {node : Option Node},
    (∀ n, node = some n → n.IsResolvable .perhaps) → Succeeds (Node.directOption node)
  | none, _ => .pure none
  | some _, h => .bind (Node.succeeds_directIn (h _ rfl)) fun _ => .pure _

theorem Arm.succeeds_directAll : ∀ {arms : List Arm},
    (∀ p ∈ Arm.positions arms, p.1.scan = .ok .untouched) →
    (∀ body ∈ arms.filterMap Arm.body?, body.IsResolvable .perhaps) →
    Succeeds (Arm.directAll arms)
  | [], _, _ => .pure []
  | .mk patterns body :: rest, h, hbodies => by
    rw [Arm.positions, List.forall_mem_append, List.forall_mem_append] at h
    refine .bind (Word.succeeds_directEach h.1) fun _ => ?_
    cases body with
    | none =>
      refine .bind (Node.succeeds_directOption nofun) fun _ => ?_
      exact .bind (Arm.succeeds_directAll h.2.2 hbodies) fun _ => .pure _
    | some body =>
      have hparts : (Arm.mk patterns (some body) :: rest).filterMap Arm.body? =
          body :: rest.filterMap Arm.body? := rfl
      rw [hparts, List.forall_mem_cons] at hbodies
      refine .bind (.bind (Node.succeeds_directIn hbodies.1) fun _ => .pure _) fun _ => ?_
      exact .bind (Arm.succeeds_directAll h.2.2 hbodies.2) fun _ => .pure _

end

/-! ## Opened sessions -/

/-- An environment in which nothing is set. -/
theorem Environment.isPlain_empty : Environment.IsPlain {} :=
  ⟨nofun, nofun, nofun, nofun, nofun, rfl⟩

theorem Scope.isClean_empty : Scope.IsClean {} := ⟨nofun, nofun, nofun⟩

/-- **Nothing but an assignment keeps such a tree from being resolved.** A tree whose words are
untouched, which the pre-filter lets through, and whose assignments have valid names and values
without NUL, is resolved in a session that has just been opened without variables if and only if it
assigns only in commands without arguments and under no condition. A value in which a backslash
escapes a literal need not be readable, and is required to be. -/
theorem resolve_untouched_iff {settings : OracleSettings} {host : Host} {session : Session Builtin}
    {node : Node} (hstart : Session.start? settings {} host = (.ok (), session))
    (hsafe : node.isSafe = true) (huntouched : ∀ p ∈ node.positions, p.1.scan = .ok .untouched)
    (hassigns : ∀ a ∈ node.assignments, Text.isName a.name = true ∧ '\x00' ∉ a.value.value)
    (hexpands : ∀ a ∈ node.assignments, a.value.escapesLiteral = true →
      ∀ scope : Scope, (scope.expandWord .noSplit a.value).isOk = true) :
    (node.resolve.outcome session).1.isOk = true ↔ node.AssignsPlainly := by
  constructor
  · intro hok
    obtain ⟨node', hnode'⟩ := isOk_iff.1 hok
    exact Node.assignsPlainly_of_resolve (Prod.ext hnode' rfl)
  · intro hplainly
    have hresolvable : node.IsResolvable .always := by
      refine ⟨hsafe, huntouched, fun a ha => ?_, fun path c hpart hc => ?_⟩
      · exact ⟨(hassigns a ha).1, (hassigns a ha).2, hexpands a ha⟩
      · obtain ⟨harguments, hguarded⟩ := hplainly path c hpart hc
        exact ⟨harguments, rfl, hguarded⟩
    obtain ⟨last, after, hdirect, -⟩ := Node.succeeds_directIn hresolvable {} Scope.isClean_empty
    have hmirrors : session.Mirrors [] {} :=
      Session.mirrors_of_start? Environment.isPlain_empty hstart
    rw [hmirrors.resolve, Node.direct, hdirect]
    rfl

/-- An assignment in front of a command is let through by the pre-filter, and refused. -/
theorem resolve_untouched_prefixed :
    let host : Host := { hasDirectory := fun _ => true, fileText := fun _ => none }
    let session : Session Builtin :=
      { settings := {}, environment := {}, host
        live := some ({}, { path := host.temporaryDirectory ++ journalName }) }
    let node : Node :=
      .command ⟨none, [⟨"a".toList, .ofText "1".toList⟩], [.ofText "b".toList], []⟩
    Session.start? {} {} host = (.ok (), session) ∧ node.isSafe = true ∧
      (node.resolve.outcome session).1 = .error (.impure .prefixedCommand) ∧
      ¬ node.AssignsPlainly := by
  intro host session node
  have hstart : Session.start? {} {} host = (.ok (), session) := rfl
  have hrefused : (node.resolve.outcome session).1 = .error (.impure .prefixedCommand) := rfl
  have hsafe : node.isSafe = true := by decide
  have hescapes : ∀ a ∈ node.assignments, a.value.escapesLiteral = false := by decide
  refine ⟨hstart, hsafe, hrefused, fun hplainly => ?_⟩
  have hok := (resolve_untouched_iff hstart hsafe (by decide) (by decide) fun a ha h => by
    rw [hescapes a ha] at h
    cases h).2 hplainly
  rw [hrefused] at hok
  cases hok

end ShellFold
