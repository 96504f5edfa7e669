import ShellFold.Proofs.Interpreter.Framing

/-!
# The fields in a reply

A splitting probe prints the marker and every field with a NUL behind each (`Probe.reply`). The
reply is read as those fields and no others (`Probe.fields?_eq_ok`), the line ends that are
normalised in it are those of the fields (`Text.joinReturns_reply`), and since a prompt has no NUL
it cannot begin in the reply and end in the prompt behind it (`notMem_of_checkSentinel`,
`not_isInfix_append`).
-/

set_option autoImplicit false

namespace ShellFold

open Attempt

namespace Text

/-! ## Parts between marks -/

section Parts

variable {mark : Char} {part : Text}

theorem splitOn_of_notMem (h : mark ∉ part) : splitOn mark part = [part] := by
  induction part with
  | nil => rfl
  | cons c part ih =>
    rw [List.mem_cons, not_or] at h
    rw [splitOn, if_neg (Ne.symm h.1), ih h.2]

theorem splitOn_append (h : mark ∉ part) (rest : Text) :
    splitOn mark (part ++ mark :: rest) = part :: splitOn mark rest := by
  induction part with
  | nil => rw [List.nil_append, splitOn, if_pos rfl]
  | cons c part ih =>
    rw [List.mem_cons, not_or] at h
    rw [List.cons_append, splitOn, if_neg (Ne.symm h.1), ih h.2]

/-- Parts that are free of the mark are found again. -/
theorem splitOn_intercalate {parts : List Text} (hne : parts ≠ [])
    (h : ∀ part ∈ parts, mark ∉ part) : splitOn mark ([mark].intercalate parts) = parts := by
  induction parts with
  | nil => exact absurd rfl hne
  | cons part parts ih =>
    obtain ⟨hpart, hparts⟩ := List.forall_mem_cons.1 h
    cases parts with
    | nil => rw [List.intercalate_singleton, splitOn_of_notMem hpart]
    | cons next others =>
      rw [List.intercalate_cons_cons, List.append_assoc, List.singleton_append,
        splitOn_append hpart, ih (List.cons_ne_nil _ _) hparts]

/-- The parts of a text make it up. -/
theorem intercalate_splitOn (mark : Char) (s : Text) : [mark].intercalate (splitOn mark s) = s := by
  induction s with
  | nil => rfl
  | cons c s ih =>
    rw [splitOn]
    rcases hparts : splitOn mark s with _ | ⟨part, parts⟩
    · exact absurd hparts (splitOn_ne_nil mark s)
    rw [hparts] at ih
    split
    · next hc => rw [List.intercalate_cons_cons, ih, hc]; rfl
    · cases parts with
      | nil => rw [← ih]; rfl
      | cons next others =>
        rw [← ih, List.intercalate_cons_cons, List.intercalate_cons_cons]
        rfl

/-- No part has the mark. -/
theorem notMem_of_mem_splitOn (mark : Char) (s : Text) :
    ∀ part ∈ splitOn mark s, mark ∉ part := by
  induction s with
  | nil => exact List.forall_mem_singleton.2 List.not_mem_nil
  | cons c s ih =>
    rw [splitOn]
    split
    · exact List.forall_mem_cons.2 ⟨List.not_mem_nil, ih⟩
    · next hc =>
      rcases hparts : splitOn mark s with _ | ⟨part, parts⟩
      · exact absurd hparts (splitOn_ne_nil mark s)
      rw [hparts] at ih
      obtain ⟨hpart, hparts⟩ := List.forall_mem_cons.1 ih
      exact List.forall_mem_cons.2
        ⟨fun h => (List.mem_cons.1 h).elim (fun h => hc h.symm) hpart, hparts⟩

/-- With a mark behind every part, the marks between the parts are followed by one at the end. -/
theorem flatMap_concat_mark {parts : List Text} (hne : parts ≠ []) :
    parts.flatMap (· ++ [mark]) = [mark].intercalate parts ++ [mark] := by
  induction parts with
  | nil => exact absurd rfl hne
  | cons part parts ih =>
    cases parts with
    | nil => rw [List.flatMap_singleton, List.intercalate_singleton]
    | cons next others =>
      rw [List.flatMap_cons, ih (List.cons_ne_nil _ _), List.intercalate_cons_cons]
      simp only [List.append_assoc]

end Parts

/-! ## Line ends -/

/-- Line ends are normalised on both sides of a character that is no newline. -/
theorem joinReturns_append {c : Char} (hc : c ≠ '\n') (s t : Text) :
    joinReturns (s ++ c :: t) = joinReturns s ++ joinReturns (c :: t) := by
  fun_induction joinReturns s with
  | case1 rest ih => rw [List.cons_append, List.cons_append, joinReturns, ih, List.cons_append]
  | case2 d rest hreturn ih =>
    rw [List.cons_append, joinReturns, ih, List.cons_append]
    intro after hd hrest
    cases rest with
    | nil => exact hc (List.cons.inj hrest).1
    | cons e rest =>
      obtain ⟨rfl, rfl⟩ := List.cons.inj hrest
      exact hreturn rest hd rfl
  | case3 => rfl

theorem joinReturns_cons {c : Char} (hc : c ≠ '\r') (s : Text) :
    joinReturns (c :: s) = c :: joinReturns s := by
  rw [joinReturns]
  exact fun _ h => absurd h hc

theorem joinReturns_subset (s : Text) : s.joinReturns ⊆ s := by
  fun_induction joinReturns s with
  | case1 rest ih => exact List.subset_cons_of_subset _ (List.cons_subset_cons _ ih)
  | case2 c rest _ ih => exact List.cons_subset_cons _ ih
  | case3 => exact List.Subset.refl _

end Text

namespace Probe

/-! ## The reply to a splitting probe -/

/-- What a splitting probe prints when its word has these fields. -/
def reply (fields : List Text) : Text := (marker :: fields).flatMap (· ++ ['\x00'])

theorem reply_eq (fields : List Text) :
    reply fields = ['\x00'].intercalate (marker :: fields) ++ ['\x00'] :=
  Text.flatMap_concat_mark (List.cons_ne_nil _ _)

/-- A reply is read as the fields that it was printed for. -/
theorem fields?_eq_ok {text : Text} {fields : List Text} :
    fields? text = .ok fields ↔
      text = reply fields ∧ ∀ field ∈ fields, '\x00' ∉ field := by
  constructor
  · intro h
    rw [fields?] at h
    split at h
    · next hlast =>
      obtain ⟨front, rfl⟩ := List.getLast?_eq_some_iff.1 hlast
      rw [List.dropLast_concat] at h
      have hfree := Text.notMem_of_mem_splitOn '\x00' front
      have hparts := Text.intercalate_splitOn '\x00' front
      split at h
      · next first rest hsplit =>
        rw [hsplit] at hfree hparts
        split at h
        · next hmarker =>
          cases h
          rw [reply_eq, ← hmarker, hparts]
          exact ⟨rfl, (List.forall_mem_cons.1 hfree).2⟩
        · cases h
      · cases h
    · cases h
  · rintro ⟨rfl, hfields⟩
    have hmarker : '\x00' ∉ marker := by decide
    have hparts := Text.splitOn_intercalate (List.cons_ne_nil marker fields)
      (List.forall_mem_cons.2 ⟨hmarker, hfields⟩)
    rw [reply_eq, fields?, List.getLast?_concat, if_pos rfl, List.dropLast_concat, hparts]
    exact if_pos rfl

/-- The line ends that are normalised in a reply are those of its fields. -/
theorem joinReturns_reply (fields : List Text) :
    (reply fields).joinReturns = reply (fields.map Text.joinReturns) := by
  have hparts (parts : List Text) : Text.joinReturns (parts.flatMap (· ++ ['\x00'])) =
      (parts.map Text.joinReturns).flatMap (· ++ ['\x00']) := by
    induction parts with
    | nil => rfl
    | cons part parts ih =>
      rw [List.flatMap_cons, List.append_assoc, List.singleton_append,
        Text.joinReturns_append (by decide), Text.joinReturns_cons (by decide), ih, List.map_cons,
        List.flatMap_cons, List.append_assoc, List.singleton_append]
  exact hparts (marker :: fields)

/-- An accepted prompt has no NUL. -/
theorem notMem_of_checkSentinel {sentinel : Text} (h : checkSentinel sentinel = .ok ()) :
    '\x00' ∉ sentinel := by
  intro hmem
  have hunusable : sentinel = [] ∨ sentinel.any (· ∈ ['\n', '\\', '\x60', '\x00']) :=
    .inr (List.any_eq_true.2 ⟨'\x00', hmem, by decide⟩)
  rw [checkSentinel, if_pos hunusable] at h
  cases h

end Probe

/-! ## Where the prompt begins -/

/-- Behind something that is not in it, a mark does not begin before it is to begin. -/
theorem not_isInfix_append {α : Type} {mark before : List α} {a : α} (ha : a ∉ mark)
    (hlast : before.getLast? = some a) (h : ¬mark <:+: before) :
    ¬mark <:+: before ++ mark.dropLast := by
  have hne : mark ≠ [] := by
    rintro rfl
    exact h List.nil_infix
  have hshort : mark.dropLast.length < mark.length := by
    have := List.length_pos_of_ne_nil hne
    rw [List.length_dropLast]
    omega
  rintro ⟨x, y, hxy⟩
  rcases List.append_eq_append_iff.1 hxy with ⟨rest, rfl, -⟩ | ⟨overlap, hover, hrest⟩
  · exact h (List.infix_append x mark rest)
  have hoverlap : overlap.length < mark.length := by
    have := congrArg List.length hrest
    rw [List.length_append] at this
    omega
  -- the occurrence begins in `before`: `start` is what it has of it, with `a` at the end
  rcases List.append_eq_append_iff.1 hover with ⟨start, rfl, rfl⟩ | ⟨start, rfl, rfl⟩
  · have hstart : start ≠ [] := by
      rintro rfl
      exact hoverlap.false
    rw [List.getLast?_append_of_ne_nil _ hstart] at hlast
    exact ha (List.mem_append_left _ (List.mem_of_getLast? hlast))
  · rw [List.length_append] at hoverlap
    omega

namespace Interpreter

variable {it : Interpreter} {terminal : Terminal} {rest : List UInt8}

/-- The reply to a splitting probe ends where the first prompt begins. -/
theorem cutAt?_reply {fields : List Text} (hsentinel : Probe.checkSentinel it.sentinel = .ok ())
    (h : ¬it.sentinel.bytes <:+: (Probe.reply fields).bytes) (rest : List UInt8) :
    cutAt? it.sentinel.bytes ((Probe.reply fields).bytes ++ it.sentinel.bytes ++ rest) =
      some ((Probe.reply fields).bytes, rest) := by
  have hzero : 0 ∉ it.sentinel.bytes :=
    mt Text.zero_mem_bytes.1 (Probe.notMem_of_checkSentinel hsentinel)
  have hlast : (Probe.reply fields).bytes.getLast? = some 0 := by
    rw [Probe.reply_eq, Text.bytes_append, Text.bytes_nul, List.getLast?_concat]
  exact cutAt?_append (not_isInfix_append hzero hlast h) rest

theorem outcome_expandWord_cut {reply : Text} (hsound : it.poisoned = false)
    (hterminal : it.terminal = some terminal)
    (hcut : cutAt? it.sentinel.bytes terminal.unread = some (reply.bytes, rest)) (word : Text) :
    (expandWord word).outcome it =
      (Probe.fields? reply.joinReturns,
        { it.log (Probe.splitting word) none with
          terminal := some { terminal with unread := rest } }) := by
  have hsend : (run (Probe.splitting word)).outcome it =
      (.ok reply.joinReturns, { it.log (Probe.splitting word) none with
        terminal := some { terminal with unread := rest } }) := by
    have hlogged : (it.log (Probe.splitting word) none).terminal = some terminal := hterminal
    rw [run, outcome_send, hsound, if_neg Bool.false_ne_true, hterminal, Option.isNone_some,
      if_neg Bool.false_ne_true, outcome_awaitPrompt_cut hlogged hcut]
  rw [expandWord, outcome_bind_ok hsend, outcome_ofExcept]

/-- **Splitting probes recover every field.** Where an oracle that is in use has an accepted prompt
and next comes the reply with some fields, which the prompt is not in, and the prompt, the word is
expanded to these fields with their line ends normalised, and what is unread is what stands behind
that prompt. Whenever a word is expanded to some fields, the reply was the one with these fields. -/
theorem expandWord_recovers (word : Text) (it : Interpreter) :
    (Probe.checkSentinel it.sentinel = .ok () → it.poisoned = false →
      ∀ (fields : List Text) (terminal : Terminal) (rest : List UInt8),
        (∀ field ∈ fields, '\x00' ∉ field) →
        ¬it.sentinel.bytes <:+: (Probe.reply fields).bytes →
        it.terminal = some { terminal with
          unread := (Probe.reply fields).bytes ++ it.sentinel.bytes ++ rest } →
        (expandWord word).outcome it =
          (.ok (fields.map Text.joinReturns),
            { it.log (Probe.splitting word) none with
              terminal := some { terminal with unread := rest } })) ∧
    ∀ (fields : List Text) (after : Interpreter),
      (expandWord word).outcome it = (.ok fields, after) →
      ∃ terminal reply rest, it.terminal = some terminal ∧
        terminal.await? it.sentinel = some (reply, rest) ∧ after.terminal = some rest ∧
        decodeReply? reply = some (Probe.reply fields) := by
  constructor
  · intro hsentinel hsound fields terminal rest hfields hreply hterminal
    have hread : Probe.fields? (Probe.reply fields).joinReturns =
        .ok (fields.map Text.joinReturns) := by
      rw [Probe.joinReturns_reply, Probe.fields?_eq_ok]
      refine ⟨rfl, List.forall_mem_map.2 fun field hfield hnul => ?_⟩
      exact hfields field hfield (Text.joinReturns_subset field hnul)
    rw [outcome_expandWord_cut hsound hterminal (cutAt?_reply hsentinel hreply rest), hread]
  · intro fields after h
    obtain ⟨text, answered, hanswer, hfields⟩ := outcome_bind_eq_ok.1 h
    rw [outcome_ofExcept, Prod.mk.injEq] at hfields
    obtain ⟨hfields, rfl⟩ := hfields
    have hexchange := exchange it (Probe.splitting word) none
    rw [run] at hanswer
    rw [hanswer] at hexchange
    cases hexchange with
    | answered _ hterminal hreply htext =>
      rw [(Probe.fields?_eq_ok.1 hfields).1] at htext
      exact ⟨_, _, _, hterminal, hreply, rfl, htext⟩

/-- In a context, three fields are recovered, one of them empty and one with a carriage return at
its end; the bytes behind the prompt stay unread. -/
theorem expandWord_recovers_of_lines :
    let fields : List Text := ["a\r\nb".toList, [], "c\r".toList]
    let terminal : Terminal :=
      { unread := (Probe.reply fields).bytes ++ Text.bytes ">".toList ++ [62], ending := .closed }
    let it : Interpreter :=
      { sentinel := ">".toList, timeout := 0, terminal := some terminal, depth := 1 }
    ∃ after, (expandWord "$x".toList).outcome it =
        (.ok ["a\nb".toList, [], "c\r".toList], after) ∧
      after.terminal = some { terminal with unread := [62] } := by
  intro fields terminal it
  have hfree : ¬it.sentinel.bytes <:+: (Probe.reply fields).bytes :=
    mt Text.bytes_isInfix.1 (by decide)
  have hrecovered := (expandWord_recovers "$x".toList it).1 (by decide) rfl fields terminal [62]
    (by decide) hfree rfl
  exact ⟨_, hrecovered, rfl⟩

end Interpreter

end ShellFold
