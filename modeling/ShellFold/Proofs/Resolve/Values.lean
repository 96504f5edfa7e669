import ShellFold.Proofs.Expansion.Tilde
import ShellFold.Proofs.Resolve.Literal

/-!
# Values without a question

The value of an assignment is taken from its word as it stands where the word has nothing to expand
and no backslash. No character of such a word, nor of its literals as they are quoted, means
anything to the oracle, so that the oracle would have answered the same
(`resolveValue_eq_expand`).
-/

set_option autoImplicit false

namespace ShellFold

/-- Source characters without a meaning and quoted literals are read as literal pieces that spell
the word. -/
theorem Word.read_sourceText {fragments : List Fragment} {t : Text}
    (h : sourceText ⟨fragments⟩ = .ok t)
    (hplain : ∀ c ∈ rawChars ⟨fragments⟩, Quoting.isPlain c = true) :
    ∃ parts : List Text, Piece.read .bare t = parts.map .text ∧
      parts.flatten = value ⟨fragments⟩ := by
  induction fragments generalizing t with
  | nil =>
    cases h
    exact ⟨[], Piece.read_nil .bare, rfl⟩
  | cons f fragments ih =>
    rw [sourceText_cons] at h
    obtain ⟨u, hu, h⟩ := bind_eq_ok.1 h
    obtain ⟨t, ht, h⟩ := bind_eq_ok.1 h
    cases h
    cases f with
    | raw c =>
      cases hu
      rw [rawChars_raw, List.forall_mem_cons] at hplain
      obtain ⟨parts, hread, hvalue⟩ := ih ht hplain.2
      refine ⟨[c] :: parts, ?_, by rw [List.flatten_cons, hvalue]; rfl⟩
      rw [List.singleton_append, Piece.read_text (Quoting.step_plain hplain.1 .bare t), hread]
      rfl
    | quoted s =>
      obtain ⟨parts, hread, hvalue⟩ := ih ht hplain
      have hwritten := Text.written_of_quote? (quoteLiteral_eq_ok.1 hu)
      obtain ⟨front, hfront, hs, -⟩ := Piece.read_written hwritten t
      refine ⟨front ++ parts, by rw [hfront, hread, List.map_append], ?_⟩
      rw [List.flatten_append, hs, hvalue, value_quoted]

/-- A word that the scanner leaves untouched, without a backslash, expands to its characters. -/
theorem Scope.expand_of_untouched (scope : Scope) {w : Word} {t : Text}
    (hscan : w.scan = .ok .untouched) (hback : '\\' ∉ w.rawChars) (h : w.sourceText = .ok t) :
    scope.expand .noSplit t = .ok [w.value] := by
  have hpasses := Word.passes_of_scan hscan
  have hplain : ∀ c ∈ w.rawChars, Quoting.isPlain c = true := fun c hc =>
    Scanner.isPlain_of_passes (hpasses c hc) fun heq => hback (heq ▸ hc)
  obtain ⟨parts, hread, hvalue⟩ := Word.read_sourceText h hplain
  have hpieces : Piece.ofText .noSplit t = parts.map .text :=
    (Piece.ofText_of_head (Word.head?_sourceText h hpasses)).trans hread
  rw [scope.expand_texts (by decide) hpieces, hvalue]

/-- **A value that is found without a question is the one that the oracle gives.** Let a word be
untouched for the scanner, without a backslash, and its literals without NUL. As an assigned value
it stands for its characters, in any session, which stays as it is even if it is closed; and in
every state of the oracle its source expands to the same text. -/
theorem resolveValue_eq_expand {σ : Type} [Oracle σ] (session : Session σ) (builtin : Builtin)
    {w : Word} (hscan : w.scan = .ok .untouched) (hback : '\\' ∉ w.rawChars)
    (hnul : ∀ text, .quoted text ∈ w.fragments → '\x00' ∉ text) :
    w.resolveValue.outcome session = (.ok (w, w.value), session) ∧
      ∃ source, w.sourceText = .ok source ∧
        (Oracle.expand source .noSplit).outcome builtin = (.ok [w.value], builtin) := by
  have hplain : w.isPlain .untouched = true := by simpa [Word.isPlain] using hback
  obtain ⟨source, hsource⟩ := Word.exists_sourceText hnul
  refine ⟨?_, source, hsource, ?_⟩
  · rw [Word.resolveValue_plain hscan hplain]
    rfl
  · rw [Builtin.outcome_expand, builtin.scope.expand_of_untouched hscan hback hsource]

/-- Source characters around a literal with quotes, a dollar sign and a caret, in a session that has
not been opened, and a state where fields are split at no character. -/
theorem resolveValue_eq_expand_of_mixed :
    let session : Session Builtin :=
      .new {} {} { hasDirectory := fun _ => true, fileText := fun _ => none }
    let builtin : Builtin :=
      { scope := { vars := Variables.ofList [("IFS".toList, { value := [] })] } }
    let w : Word := ⟨[.raw 'a', .raw '=', .quoted "it's \\ $5^".toList, .raw '/', .quoted []]⟩
    (w.scan = .ok .untouched ∧ '\\' ∉ w.rawChars ∧
      ∀ text, .quoted text ∈ w.fragments → '\x00' ∉ text) ∧
    w.resolveValue.outcome session = (.ok (w, w.value), session) ∧
      ∃ source, w.sourceText = .ok source ∧
        (Oracle.expand source .noSplit).outcome builtin = (.ok [w.value], builtin) := by
  intro session builtin w
  have hscan : w.scan = .ok .untouched := by decide
  have hback : '\\' ∉ w.rawChars := by decide
  have hnul : ∀ text, .quoted text ∈ w.fragments → '\x00' ∉ text := fun _ =>
    Word.notMem_of_quoted (by decide)
  exact ⟨⟨hscan, hback, hnul⟩, resolveValue_eq_expand session builtin hscan hback hnul⟩

end ShellFold
