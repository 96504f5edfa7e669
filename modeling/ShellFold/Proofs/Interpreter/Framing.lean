import ShellFold.Proofs.Interpreter.Operation
import ShellFold.Proofs.Text.Bytes

/-!
# Framing by the prompt

The interpreter is read up to the first prompt, so a reply is taken for what it is unless the
prompt already occurs where the reply and the beginning of its own prompt meet. A prompt that is
not in the reply can occur there only if one of its ends is also its beginning: the accepted
prompts that frame every sequence of replies are those without such a border
(`frames_iff_borderless`).
-/

set_option autoImplicit false

namespace ShellFold

open Attempt

/-! ## First occurrences -/

section Cut

variable {α : Type} {mark before : List α}

/-- Nothing but the list itself and the empty list is at both ends of the list. -/
def Borderless (mark : List α) : Prop :=
  ∀ border ∈ mark.tails, border <+: mark → border = [] ∨ border = mark

instance [DecidableEq α] (mark : List α) : Decidable (Borderless mark) :=
  inferInstanceAs (Decidable (∀ border ∈ mark.tails, border <+: mark → border = [] ∨ border = mark))

theorem cutAt?_self [DecidableEq α] (mark after : List α) :
    cutAt? mark (mark ++ after) = some ([], after) := by
  rcases hlist : mark ++ after with _ | ⟨a, list⟩
  · obtain ⟨rfl, rfl⟩ := List.append_eq_nil_iff.1 hlist
    rfl
  · rw [cutAt?, ← hlist, if_pos (List.prefix_append mark after), List.drop_left]

/-- A list is cut at a mark that does not occur where its beginning and the mark meet. -/
theorem cutAt?_append [DecidableEq α] (h : ¬mark <:+: before ++ mark.dropLast) (after : List α) :
    cutAt? mark (before ++ mark ++ after) = some (before, after) := by
  have hmark : mark ≠ [] := by
    rintro rfl
    exact h List.nil_infix
  induction before with
  | nil => exact cutAt?_self mark after
  | cons a before ih =>
    have hrest : ¬mark <:+: before ++ mark.dropLast := fun hin => h (List.infix_cons hin)
    have hhere : ¬mark <+: a :: (before ++ mark ++ after) := by
      intro hin
      have hmeet : a :: before ++ mark.dropLast <+: a :: (before ++ mark ++ after) := by
        rw [List.cons_append, List.prefix_cons_inj, List.append_assoc, List.prefix_append_right_inj]
        exact (List.dropLast_prefix mark).trans (List.prefix_append mark after)
      have hlength : mark.length ≤ (a :: before ++ mark.dropLast).length := by
        have := List.length_pos_of_ne_nil hmark
        simp only [List.cons_append, List.length_cons, List.length_append, List.length_dropLast]
        omega
      exact h (List.prefix_of_prefix_length_le hin hmeet hlength).isInfix
    rw [List.cons_append, List.cons_append, cutAt?, if_neg hhere, ih hrest, Option.map_some]

/-- A mark without a border that does not occur in a list does not occur where the list and the
mark meet. -/
theorem Borderless.not_isInfix (hmark : Borderless mark) (hne : mark ≠ [])
    (h : ¬mark <:+: before) : ¬mark <:+: before ++ mark.dropLast := by
  have hlen : mark.dropLast.length < mark.length := by
    have := List.length_pos_of_ne_nil hne
    rw [List.length_dropLast]
    omega
  rintro ⟨x, y, hxy⟩
  rcases List.append_eq_append_iff.1 hxy with ⟨rest, rfl, -⟩ | ⟨overlap, hover, hlast⟩
  · exact h (List.infix_append x mark rest)
  -- the occurrence ends in the mark behind: `overlap` is what it has of that mark
  have hprefix : overlap <+: mark :=
    (List.prefix_append overlap y).trans (hlast ▸ mark.dropLast_prefix)
  have hshort : overlap.length < mark.length := by
    have := congrArg List.length hlast
    rw [List.length_append] at this
    omega
  have hsuffix : overlap <:+ mark :=
    List.suffix_of_suffix_length_le ⟨before, hover.symm⟩ (List.suffix_append x mark) hshort.le
  rcases hmark overlap (List.mem_tails _ _ |>.2 hsuffix) hprefix with rfl | rfl
  · exact h ⟨x, [], by simpa using hover⟩
  · exact hshort.false

end Cut

/-- The bytes of a text without a border have none either. -/
theorem Borderless.bytes {mark : Text} (h : Borderless mark) : Borderless mark.bytes := by
  intro border htails hprefix
  have hsuffix : border <:+ mark.bytes := (List.mem_tails _ _).1 htails
  rcases eq_or_ne border [] with hnil | hnil
  · exact .inl hnil
  -- the border begins as the mark does, so the mark can be cut in front of it
  obtain ⟨before, hcut⟩ := hsuffix
  obtain ⟨u, v, rfl, -, rfl⟩ := Text.exists_of_bytes_eq_append hcut.symm fun b hb => by
    obtain ⟨rest, hrest⟩ := hprefix
    refine Text.isFirstByte_of_head? (s := mark) ?_
    rwa [← hrest, List.head?_append_of_ne_nil _ hnil]
  rcases h v ((List.mem_tails _ _).2 (List.suffix_append u v)) (Text.bytes_isPrefix.1 hprefix) with
    rfl | hv
  · exact .inl Text.bytes_nil
  · exact .inr (congrArg Text.bytes hv)

theorem Text.joinReturns_eq_nil {s : Text} : s.joinReturns = [] ↔ s = [] := by
  constructor
  · intro h
    fun_cases Text.joinReturns s with
    | case1 => rw [Text.joinReturns] at h; cases h
    | case2 => rw [Text.joinReturns] at h <;> simp_all
    | case3 => rfl
  · rintro rfl
    rfl

namespace Interpreter

/-! ## Waiting for one prompt after the other -/

/-- What an interpreter writes that gives these replies, each followed by the prompt. -/
def transcript (sentinel : Text) (replies : List Text) : List UInt8 :=
  replies.flatMap fun reply => reply.bytes ++ sentinel.bytes

/-- Every sequence of replies without the prompt is read as that sequence, with line ends
normalised: each wait takes the next reply and its prompt, and nothing else changes. -/
def Frames (sentinel : Text) : Prop :=
  ∀ (replies : List Text) (it : Interpreter) (terminal : Terminal) (rest : List UInt8),
    (∀ reply ∈ replies, ¬sentinel <:+: reply) → it.sentinel = sentinel →
    it.terminal = some { terminal with unread := transcript sentinel replies ++ rest } →
    (replies.mapM fun _ => awaitPrompt).outcome it =
      (.ok (replies.map Text.joinReturns),
        { it with terminal := some { terminal with unread := rest } })

/-- One wait takes the text in front of the first prompt. -/
theorem outcome_awaitPrompt_cut {it : Interpreter} {terminal : Terminal} {reply : Text}
    {rest : List UInt8} (hterminal : it.terminal = some terminal)
    (hcut : cutAt? it.sentinel.bytes terminal.unread = some (reply.bytes, rest)) :
    awaitPrompt.outcome it =
      (.ok reply.joinReturns, { it with terminal := some { terminal with unread := rest } }) := by
  have hawait : terminal.await? it.sentinel =
      some (reply.bytes, { terminal with unread := rest }) := by
    rw [Terminal.await?, hcut, Option.map_some]
  rw [outcome_awaitPrompt_some hterminal hawait, decodeReply?, Text.ofBytes?_bytes, Option.map_some]

/-- A prompt without a border frames a reply that it does not occur in. -/
theorem cutAt?_transcript {sentinel reply : Text} (hborder : Borderless sentinel)
    (hne : sentinel ≠ []) (hreply : ¬sentinel <:+: reply) (rest : List UInt8) :
    cutAt? sentinel.bytes (reply.bytes ++ sentinel.bytes ++ rest) = some (reply.bytes, rest) :=
  cutAt?_append (hborder.bytes.not_isInfix (mt Text.bytes_eq_nil.1 hne)
    (mt Text.bytes_isInfix.1 hreply)) rest

theorem Frames.of_borderless {sentinel : Text} (hborder : Borderless sentinel)
    (hne : sentinel ≠ []) : Frames sentinel := by
  intro replies
  induction replies with
  | nil =>
    intro it terminal rest _ _ hterminal
    obtain ⟨_, _, _, _, _, _⟩ := it
    cases hterminal
    rfl
  | cons reply replies ih =>
    intro it terminal rest hreplies hsentinel hterminal
    obtain ⟨hreply, hreplies⟩ := List.forall_mem_cons.1 hreplies
    have hcut : cutAt? it.sentinel.bytes (transcript sentinel (reply :: replies) ++ rest) =
        some (reply.bytes, transcript sentinel replies ++ rest) := by
      rw [hsentinel, transcript, List.flatMap_cons, List.append_assoc _ _ rest]
      exact cutAt?_transcript hborder hne hreply _
    have hothers := ih
      { it with terminal := some { terminal with unread := transcript sentinel replies ++ rest } }
      terminal rest hreplies hsentinel rfl
    rw [List.mapM_cons, outcome_bind_ok (outcome_awaitPrompt_cut hterminal hcut),
      outcome_bind_ok hothers]
    rfl

/-- Where an end of the prompt is also its beginning, what stands in front of that end is a reply
that is lost. -/
theorem Frames.borderless {sentinel : Text} (h : Frames sentinel) : Borderless sentinel := by
  intro border htails hprefix
  obtain ⟨reply, hreply⟩ := (List.mem_tails _ _).1 htails
  obtain ⟨after, hafter⟩ := hprefix
  rcases eq_or_ne border [] with hnil | hnil
  · exact .inl hnil
  right
  have hfree : ¬sentinel <:+: reply := by
    intro hin
    have hlength := hin.length_le
    have hborder := List.length_pos_of_ne_nil hnil
    rw [← hreply, List.length_append] at hlength
    omega
  have hunread : transcript sentinel [reply] = sentinel.bytes ++ Text.bytes after := by
    rw [transcript, List.flatMap_singleton, ← Text.bytes_append, ← Text.bytes_append]
    conv_lhs => rw [← hafter]
    rw [← List.append_assoc, hreply]
  let it : Interpreter :=
    { sentinel, timeout := 0, terminal := some { unread := transcript sentinel [reply] ++ [] } }
  have hframed := h [reply] it { unread := [] } [] (by simpa using hfree) rfl rfl
  have hcut : cutAt? it.sentinel.bytes (transcript sentinel [reply] ++ []) =
      some (Text.bytes [], Text.bytes after) := by
    rw [hunread, List.append_nil, Text.bytes_nil]
    exact cutAt?_self sentinel.bytes (Text.bytes after)
  rw [List.mapM_cons, outcome_bind_ok (outcome_awaitPrompt_cut rfl hcut)] at hframed
  have hlost : [] = Text.joinReturns reply :=
    List.head_eq_of_cons_eq (Except.ok.inj (congrArg Prod.fst hframed))
  rw [Text.joinReturns_eq_nil.1 hlost.symm] at hreply
  exact hreply

/-- An accepted prompt is not empty. -/
theorem ne_nil_of_checkSentinel {sentinel : Text} (h : Probe.checkSentinel sentinel = .ok ()) :
    sentinel ≠ [] := by
  rintro rfl
  cases h

/-- **An accepted prompt frames every sequence of replies that do not contain it exactly when it has
no border.** Where a proper end of the prompt is also its beginning, the reply that is the rest of
the prompt makes it appear too early: the wait then yields the empty reply, and what is left of the
prompt begins the next one. -/
theorem frames_iff_borderless {sentinel : Text}
    (haccepted : Probe.checkSentinel sentinel = .ok ()) : Frames sentinel ↔ Borderless sentinel :=
  ⟨Frames.borderless, fun h => .of_borderless h (ne_nil_of_checkSentinel haccepted)⟩

/-- The prompt that is set where none is chosen frames all replies; one of two equal letters, which
is accepted as well, does not. -/
theorem frames_iff_borderless_of_default :
    let default := ({} : OracleSettings).sentinel
    let doubled := "aa".toList
    Probe.checkSentinel default = .ok () ∧ Frames default ∧
      Probe.checkSentinel doubled = .ok () ∧ ¬Frames doubled := by
  intro default doubled
  have hdefault : Probe.checkSentinel default = .ok () := by decide
  have hdoubled : Probe.checkSentinel doubled = .ok () := by decide
  exact ⟨hdefault, (frames_iff_borderless hdefault).2 (by decide), hdoubled,
    mt (frames_iff_borderless hdoubled).1 (by decide)⟩

end Interpreter

end ShellFold
