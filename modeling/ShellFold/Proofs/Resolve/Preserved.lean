import Mathlib
import ShellFold.Proofs.Resolve.Meaning

/-!
# What resolving preserves

On a settled session that is free of NUL, resolving leaves the session as it is and takes each
part of a tree to one of the same meaning: a lemma for words, for redirections and conditional
expressions, and the induction over the tree (`resolve_sameMeaning`).
-/

set_option autoImplicit false

namespace ShellFold

/-! ## Literals -/

theorem Word.sourceText_clean {fragments : List Fragment} : ∀ {t : Text},
    Word.sourceText ⟨fragments⟩ = .ok t → (Word.mk fragments).IsClean → '\x00' ∉ t := by
  induction fragments with
  | nil =>
    intro t h _
    cases h
    simp
  | cons f fragments ih =>
    intro t h hclean
    rw [sourceText_cons] at h
    obtain ⟨u, hu, h⟩ := bind_eq_ok.1 h
    obtain ⟨t, ht, h⟩ := bind_eq_ok.1 h
    cases h
    cases f with
    | raw c =>
      cases hu
      rw [IsClean, value_raw, List.mem_cons, not_or] at hclean
      simpa [hclean.1] using ih ht hclean.2
    | quoted s =>
      rw [IsClean, value_quoted, List.mem_append, not_or] at hclean
      rw [List.mem_append, not_or]
      refine ⟨fun hmem => ?_, ih ht hclean.2⟩
      rcases (Text.written_of_quote? (quoteLiteral_eq_ok.1 hu)).subset _ hmem with hmem | hmem
      · exact hclean.1 hmem
      · exact absurd hmem (by decide)

theorem Word.heredocText_clean {fragments : List Fragment} :
    (Word.mk fragments).IsClean → '\x00' ∉ Word.heredocText ⟨fragments⟩ := by
  intro hclean hmem
  obtain ⟨f, hf, hmem⟩ := List.mem_flatMap.1 hmem
  refine hclean (List.mem_flatMap.2 ⟨f, hf, ?_⟩)
  cases f with
  | raw c => exact hmem
  | quoted s =>
    obtain ⟨c, hc, hmem⟩ := List.mem_flatMap.1 hmem
    split at hmem
    · rcases List.mem_cons.1 hmem with hmem | hmem
      · cases hmem
      · rw [List.mem_singleton.1 hmem]
        exact hc
    · rw [List.mem_singleton.1 hmem]
      exact hc

namespace Scope

variable {scope : Scope} {mode : Mode} {w : Word}

/-- What a word without NUL expands to is free of NUL. -/
theorem IsClean.expandWord (hscope : scope.IsClean) (hw : w.IsClean) {fields : List Text}
    (h : scope.expandWord mode w = .ok fields) : ∀ field ∈ fields, '\x00' ∉ field := by
  obtain ⟨source, hsource, h⟩ := bind_eq_ok.1 h
  refine hscope.expand ?_ h
  unfold Word.sourceIn at hsource
  split at hsource
  · cases hsource
    exact Word.heredocText_clean hw
  · exact Word.sourceText_clean hsource hw

end Scope

/-! ## Words -/

namespace Scope

variable {scope : Scope} {mode : Mode} {w w' : Word}

/-- A word that stays as it is. -/
theorem sameText_of_untouched (scope : Scope) (hscan : w.scan = .ok .untouched) (hw : w.IsClean)
    (hmode : mode ≠ .split) : scope.SameText mode w w := by
  refine ⟨rfl, ?_⟩
  cases hescapes : w.escapesLiteral with
  | true => exact .inr ⟨rfl, hscan, hescapes⟩
  | false =>
    obtain ⟨fields, hfields⟩ := isOk_iff.1
      (scope.isOk_expandWord_of_untouched mode hscan hescapes hw)
    obtain ⟨source, -, hexpand⟩ := bind_eq_ok.1 hfields
    obtain ⟨v, rfl⟩ := List.length_eq_one_iff.1 (length_expand hexpand hmode)
    exact .inl ⟨v, hfields⟩

/-- A word in whose place its text is put. -/
theorem sameText_literal {v : Text} (h : scope.expandWord mode w = .ok [v]) (hv : '\x00' ∉ v) :
    scope.SameText mode w (.literal v) :=
  ⟨by rw [h, expandWord_literal scope mode hv], .inl ⟨v, h⟩⟩

theorem expandArguments_append (scope : Scope) (ws ws' : List Word) :
    scope.expandArguments (ws ++ ws') = do
      return (← scope.expandArguments ws) ++ (← scope.expandArguments ws') := by
  induction ws with
  | nil =>
    rw [List.nil_append, expandArguments]
    rcases scope.expandArguments ws' with e | fields <;> rfl
  | cons w ws ih =>
    rw [List.cons_append, expandArguments, expandArguments, ih]
    rcases scope.expandWord .split w with e | first
    · rfl
    · rcases scope.expandArguments ws with e | fields
      · rfl
      · rcases scope.expandArguments ws' with e | fields'
        · rfl
        · exact congrArg Except.ok (List.append_assoc ..).symm

/-- Literals expand to their texts, one field each. -/
theorem expandArguments_literals (scope : Scope) {fields : List Text}
    (h : ∀ field ∈ fields, '\x00' ∉ field) :
    scope.expandArguments (fields.map .literal) = .ok fields := by
  induction fields with
  | nil => rfl
  | cons field fields ih =>
    rw [List.forall_mem_cons] at h
    rw [List.map_cons, expandArguments, expandWord_literal scope .split h.1, ih h.2]
    rfl

theorem expandArguments_singleton {fields : List Text}
    (h : scope.expandWord .split w = .ok fields) : scope.expandArguments [w] = .ok fields := by
  rw [expandArguments, h]
  exact congrArg Except.ok (List.append_nil fields)

theorem SameArguments.nil (scope : Scope) : scope.SameArguments [] [] := ⟨rfl, .inl ⟨[], rfl⟩⟩

theorem SameArguments.append {ws ws' us us' : List Word} (h : scope.SameArguments ws ws')
    (h' : scope.SameArguments us us') : scope.SameArguments (ws ++ us) (ws' ++ us') := by
  refine ⟨by rw [expandArguments_append, expandArguments_append, h.same, h'.same], ?_⟩
  rcases h.expands with ⟨fields, hfields⟩ | ⟨w, hw, hw', hstays⟩
  · rcases h'.expands with ⟨fields', hfields'⟩ | ⟨w, hw, hw', hstays⟩
    · refine .inl ⟨fields ++ fields', ?_⟩
      rw [expandArguments_append, hfields, hfields']
      rfl
    · exact .inr ⟨w, List.mem_append_right _ hw, List.mem_append_right _ hw', hstays⟩
  · exact .inr ⟨w, List.mem_append_left _ hw, List.mem_append_left _ hw', hstays⟩

end Scope

section

variable {session : Session Builtin} {builtin : Builtin} {mode : Mode}
variable (hsettled : session.Settled builtin) (hscope : builtin.scope.IsClean)
include hsettled hscope

theorem Word.keeps_expand {w : Word} (hw : w.IsClean) (mode : Mode) :
    Attempt.Keeps session (Session.expand w mode) fun fields =>
      builtin.scope.expandWord mode w = .ok fields ∧ ∀ field ∈ fields, '\x00' ∉ field := by
  intro fields after h
  rw [hsettled.expand, Prod.mk.injEq] at h
  exact ⟨h.2.symm, h.1, hscope.expandWord hw h.1⟩

theorem Word.keeps_resolveText {w : Word} (hw : w.IsClean) (mode : Mode) :
    Attempt.Keeps session (w.resolveText mode) fun v =>
      builtin.scope.expandWord mode w = .ok [v] ∧ '\x00' ∉ v := by
  refine .bind (keeps_expand hsettled hscope hw mode) ?_
  rintro fields ⟨hfields, hclean⟩
  refine .ofExcept fun v hv => ?_
  match fields, hv with
  | [_], rfl => exact ⟨hfields, hclean v (.head _)⟩

theorem Word.keeps_resolve {w : Word} (hw : w.IsClean) (hmode : mode ≠ .split) :
    Attempt.Keeps session (w.resolve mode) (builtin.scope.SameText mode w) := by
  refine .bind (.ofExcept fun _ => id) fun verdict hscan => ?_
  cases verdict with
  | untouched => exact .pure (Scope.sameText_of_untouched _ hscan hw hmode)
  | expand =>
    refine .bind (keeps_resolveText hsettled hscope hw mode) ?_
    rintro v ⟨hv, hclean⟩
    exact .pure (Scope.sameText_literal hv hclean)

theorem Word.keeps_resolveEach {ws : List Word} (hws : ∀ w ∈ ws, w.IsClean)
    (hmode : mode ≠ .split) : Attempt.Keeps session (Word.resolveEach mode ws)
      (List.Forall₂ (builtin.scope.SameText mode) ws) := by
  induction ws with
  | nil => exact .pure .nil
  | cons w ws ih =>
    rw [List.forall_mem_cons] at hws
    refine .bind (keeps_resolve hsettled hscope hws.1 hmode) fun w' hw' => ?_
    exact .bind (ih hws.2) fun ws' hws' => .pure (.cons hw' hws')

theorem Word.keeps_resolveArgument {w : Word} (hw : w.IsClean) :
    Attempt.Keeps session w.resolveArgument (builtin.scope.SameArguments [w]) := by
  refine .bind (.ofExcept fun _ => id) fun verdict hscan => ?_
  cases verdict with
  | untouched =>
    refine .pure ⟨rfl, ?_⟩
    cases hescapes : w.escapesLiteral with
    | true => exact .inr ⟨w, .head _, .head _, hscan, hescapes⟩
    | false =>
      obtain ⟨fields, hfields⟩ := isOk_iff.1
        (builtin.scope.isOk_expandWord_of_untouched .split hscan hescapes hw)
      exact .inl ⟨fields, Scope.expandArguments_singleton hfields⟩
  | expand =>
    refine .bind (keeps_expand hsettled hscope hw .split) ?_
    rintro fields ⟨hfields, hclean⟩
    have hone := Scope.expandArguments_singleton hfields
    refine .pure ⟨?_, .inl ⟨fields, hone⟩⟩
    rw [hone, Scope.expandArguments_literals _ hclean]

theorem Word.keeps_resolveArguments {ws : List Word} (hws : ∀ w ∈ ws, w.IsClean) :
    Attempt.Keeps session (Word.resolveArguments ws) (builtin.scope.SameArguments ws) := by
  induction ws with
  | nil => exact .pure (.nil _)
  | cons w ws ih =>
    rw [List.forall_mem_cons] at hws
    refine .bind (keeps_resolveArgument hsettled hscope hws.1) fun first hfirst => ?_
    exact .bind (ih hws.2) fun rest hrest => .pure (hfirst.append hrest)

theorem Word.keeps_mapM {operator : Option Word} (h : ∀ w, operator = some w → w.IsClean) :
    Attempt.Keeps session (operator.mapM (Word.resolve .noSplit))
      (Option.Rel (builtin.scope.SameText .noSplit) operator) := by
  cases operator with
  | none => exact .pure .none
  | some w =>
    rw [Option.mapM, ← bind_pure_comp]
    refine .bind (keeps_resolve hsettled hscope (h w rfl) (by decide)) fun w' hw' => ?_
    exact .pure (.some hw')

/-! ## Redirections and conditional expressions -/

theorem Redirection.keeps_resolve {r : Redirection} (hr : r.IsClean) :
    Attempt.Keeps session r.resolve (r.SameMeaning builtin.scope) := by
  unfold Redirection.resolve
  split
  · exact .throw
  · next number hdescriptor =>
    cases r with
    | file operator descriptor target =>
      obtain rfl : descriptor = .fixed number := hdescriptor
      refine .bind (Word.keeps_resolve hsettled hscope hr.2 (by decide)) fun target' htarget => ?_
      exact .pure (.file htarget)
    | heredoc kind descriptor body =>
      obtain rfl : descriptor = .fixed number := hdescriptor
      cases kind with
      | expanding =>
        refine .bind (Word.keeps_resolve hsettled hscope hr.2 (by decide)) fun body' hbody => ?_
        exact .pure (.expanding hbody)
      | literal => exact .pure .literal
    | duplicate => exact .throw
    | close => exact .throw

theorem Redirection.keeps_resolveAll {rs : List Redirection} (hrs : ∀ r ∈ rs, r.IsClean) :
    Attempt.Keeps session (Redirection.resolveAll rs)
      (List.Forall₂ (Redirection.SameMeaning builtin.scope) rs) := by
  induction rs with
  | nil => exact .pure .nil
  | cons r rs ih =>
    rw [List.forall_mem_cons] at hrs
    refine .bind (keeps_resolve hsettled hscope hrs.1) fun r' hr' => ?_
    exact .bind (ih hrs.2) fun rs' hrs' => .pure (.cons hr' hrs')

mutual

theorem Test.keeps_resolve : ∀ {t : Test}, t.IsClean →
    Attempt.Keeps session t.resolve (t.SameMeaning builtin.scope)
  | .mk operator left right invert, ht => by
    rw [Test.resolve]
    refine .bind (Word.keeps_mapM hsettled hscope ht.1) fun operator' hoperator => ?_
    refine .bind (Operand.keeps_resolve? ht.2.1) fun left' hleft => ?_
    refine .bind (Operand.keeps_resolve? ht.2.2) fun right' hright => ?_
    exact .pure (.mk hoperator hleft hright)

theorem Operand.keeps_resolve? : ∀ {o : Option Operand}, Operand.AllClean o →
    Attempt.Keeps session (Operand.resolve? o)
      (Option.Rel (Operand.SameMeaning builtin.scope) o)
  | none, _ => .pure .none
  | some (.word w), hw =>
    .bind (Word.keeps_resolve hsettled hscope hw (by decide)) fun _ h => .pure (.some (.word h))
  | some (.nested t), ht =>
    .bind (Test.keeps_resolve ht) fun _ h => .pure (.some (.nested h))

end

end

/-! ## Trees -/

variable {scope : Scope}

theorem Command.keeps_resolve (hscope : scope.IsClean) (flow : Flow) {c : Command}
    (hc : (Node.command c).IsClean) {session : Session Builtin} {saved : List Scope}
    (hsettled : session.Settled { scope, saved }) :
    Attempt.Keeps session (c.resolve flow) (c.SameMeaning scope) := by
  obtain ⟨hassignments, harguments, hredirections⟩ := hc
  have hrecord : Attempt.Keeps session (c.recordAssignments flow) (· = []) := by
    rw [recordAssignments, if_pos hassignments]
    exact .pure rfl
  refine .bind hrecord ?_
  rintro _ rfl
  refine .bind (Word.keeps_resolveArguments hsettled hscope harguments) fun as has => ?_
  refine .bind (Redirection.keeps_resolveAll hsettled hscope hredirections) fun rs hrs => ?_
  exact .pure ⟨rfl, ⟨hassignments, rfl⟩, has, hrs⟩

mutual

theorem Node.keeps_resolveIn (hscope : scope.IsClean) : ∀ (flow : Flow) (node : Node)
    {session : Session Builtin} {saved : List Scope}, node.IsClean →
    session.Settled { scope, saved } →
    Attempt.Keeps session (node.resolveIn flow) (node.SameMeaning scope)
  | flow, .command c, _, _, hnode, hsettled => by
    refine .bind (c.keeps_resolve hscope flow hnode hsettled) fun c' hc => ?_
    exact .pure (.command hc)
  | flow, .pipe items background, _, _, hnode, hsettled => by
    refine .bind (Node.keeps_resolveStages hscope flow items hnode hsettled) fun items' hitems => ?_
    exact .pure (.pipe hitems)
  | flow, .subshell body redirections, _, _, hnode, hsettled => by
    refine .bind (hsettled.keeps_inScope fun hinner =>
      Node.keeps_resolveIn hscope flow body hnode.1 hinner) fun body' hbody => ?_
    refine .bind (Redirection.keeps_resolveAll hsettled hscope hnode.2) fun rs hrs => ?_
    exact .pure (.subshell hbody hrs)
  | flow, .background body redirections, _, _, hnode, hsettled => by
    refine .bind (hsettled.keeps_inScope fun hinner =>
      Node.keeps_resolveIn hscope flow body hnode.1 hinner) fun body' hbody => ?_
    refine .bind (Redirection.keeps_resolveAll hsettled hscope hnode.2) fun rs hrs => ?_
    exact .pure (.background hbody hrs)
  | flow, .conjunction left right, _, _, hnode, hsettled => by
    refine .bind (Node.keeps_resolveIn hscope flow left hnode.1 hsettled) fun left' hleft => ?_
    refine .bind (Node.keeps_resolveIn hscope .perhaps right hnode.2 hsettled) fun r' hright => ?_
    exact .pure (.conjunction hleft hright)
  | flow, .disjunction left right, _, _, hnode, hsettled => by
    refine .bind (Node.keeps_resolveIn hscope flow left hnode.1 hsettled) fun left' hleft => ?_
    refine .bind (Node.keeps_resolveIn hscope .perhaps right hnode.2 hsettled) fun r' hright => ?_
    exact .pure (.disjunction hleft hright)
  | flow, .sequence left right, _, _, hnode, hsettled => by
    refine .bind (Node.keeps_resolveIn hscope flow left hnode.1 hsettled) fun left' hleft => ?_
    refine .bind (Node.keeps_resolveIn hscope flow right hnode.2 hsettled) fun right' hright => ?_
    exact .pure (.sequence hleft hright)
  | flow, .negation body, _, _, hnode, hsettled => by
    refine .bind (Node.keeps_resolveIn hscope .perhaps body hnode hsettled) fun body' hbody => ?_
    exact .pure (.negation hbody)
  | flow, .redirected body redirections, _, _, hnode, hsettled => by
    refine .bind (Node.keeps_resolveIn hscope flow body hnode.1 hsettled) fun body' hbody => ?_
    refine .bind (Redirection.keeps_resolveAll hsettled hscope hnode.2) fun rs hrs => ?_
    exact .pure (.redirected hbody hrs)
  | flow, .group body redirections, _, _, hnode, hsettled => by
    refine .bind (Node.keeps_resolveIn hscope flow body hnode.1 hsettled) fun body' hbody => ?_
    refine .bind (Redirection.keeps_resolveAll hsettled hscope hnode.2) fun rs hrs => ?_
    exact .pure (.group hbody hrs)
  | flow, .timed posix command, _, _, hnode, hsettled => by
    refine .bind (Node.keeps_resolveIn hscope flow command hnode hsettled) fun c' hcommand => ?_
    exact .pure (.timed hcommand)
  | flow, .whileLoop test body, _, _, hnode, hsettled => by
    refine .bind (Node.keeps_resolveIn hscope .perhaps test hnode.1 hsettled) fun test' htest => ?_
    refine .bind (Node.keeps_resolveIn hscope .perhaps body hnode.2 hsettled) fun body' hbody => ?_
    exact .pure (.whileLoop htest hbody)
  | flow, .conditional condition thenBranch elseBranch, _, _, hnode, hsettled => by
    refine .bind (Node.keeps_resolveIn hscope flow condition hnode.1 hsettled) fun c' hc => ?_
    refine .bind (Node.keeps_resolveIn hscope .perhaps thenBranch hnode.2.1 hsettled)
      fun t' hthen => ?_
    refine .bind (Node.keeps_resolve? hscope elseBranch hnode.2.2 hsettled) fun e' helse => ?_
    exact .pure (.conditional hc hthen helse)
  | flow, .caseOf argument arms, _, _, hnode, hsettled => by
    refine .bind (Word.keeps_resolve hsettled hscope hnode.1 (by decide)) fun a' hargument => ?_
    refine .bind (Arm.keeps_resolveAll hscope arms hnode.2 hsettled) fun arms' harms => ?_
    exact .pure (.caseOf hargument harms)
  | flow, .arithmetic body, _, _, hnode, hsettled => by
    refine .bind (Word.keeps_resolveEach hsettled hscope hnode (by decide)) fun body' hbody => ?_
    exact .pure (.arithmetic hbody)
  | flow, .test t, _, _, hnode, hsettled => by
    refine .bind (Test.keeps_resolve hsettled hscope hnode) fun t' ht => ?_
    exact .pure (.test ht)
  | _, .function _ _, _, _, _, _ => .throw
  | _, .forLoop _ _ _, _, _, _, _ => .throw
  | _, .select _ _ _, _, _, _, _ => .throw
  | _, .arithmeticFor _ _ _ _, _, _, _, _ => .throw
  | _, .coprocess _ _, _, _, _, _ => .throw

theorem Node.keeps_resolveStages (hscope : scope.IsClean) : ∀ (flow : Flow) (nodes : List Node)
    {session : Session Builtin} {saved : List Scope}, Node.AllClean nodes →
    session.Settled { scope, saved } →
    Attempt.Keeps session (Node.resolveStages flow nodes)
      (List.Forall₂ (Node.SameMeaning scope) nodes)
  | _, [], _, _, _, _ => .pure .nil
  | flow, node :: rest, _, _, hnodes, hsettled => by
    refine .bind (hsettled.keeps_inScope fun hinner =>
      Node.keeps_resolveIn hscope flow node hnodes.1 hinner) fun node' hnode => ?_
    refine .bind (Node.keeps_resolveStages hscope flow rest hnodes.2 hsettled) fun rest' hrest => ?_
    exact .pure (.cons hnode hrest)

theorem Node.keeps_resolve? (hscope : scope.IsClean) : ∀ (node : Option Node)
    {session : Session Builtin} {saved : List Scope}, Node.AnyClean node →
    session.Settled { scope, saved } →
    Attempt.Keeps session (Node.resolve? node) (Option.Rel (Node.SameMeaning scope) node)
  | none, _, _, _, _ => .pure .none
  | some node, _, _, hnode, hsettled => by
    refine .bind (Node.keeps_resolveIn hscope .perhaps node hnode hsettled) fun node' hnode => ?_
    exact .pure (.some hnode)

theorem Arm.keeps_resolveAll (hscope : scope.IsClean) : ∀ (arms : List Arm)
    {session : Session Builtin} {saved : List Scope}, Arm.AllClean arms →
    session.Settled { scope, saved } →
    Attempt.Keeps session (Arm.resolveAll arms) (List.Forall₂ (Arm.SameMeaning scope) arms)
  | [], _, _, _, _ => .pure .nil
  | .mk patterns body :: rest, _, _, harms, hsettled => by
    refine .bind (Word.keeps_resolveEach hsettled hscope harms.1 (by decide)) fun ps hps => ?_
    refine .bind (Node.keeps_resolve? hscope body harms.2.1 hsettled) fun body' hbody => ?_
    refine .bind (Arm.keeps_resolveAll hscope rest harms.2.2 hsettled) fun rest' hrest => ?_
    exact .pure (.cons (.mk hps hbody) hrest)

end

end ShellFold
