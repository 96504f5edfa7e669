import Mathlib.Data.List.Chain
import ShellFold.Proofs.Expansion.Literal
import ShellFold.Proofs.Expansion.Tilde
import ShellFold.Proofs.Scan.Offence

/-!
# Lists of paths

The value of an assignment is often a list of paths with colons between them, of which some begin in
the home directory. The scanner accepts each such list (`Segment.scan_join`). A tilde at
its very front expands and all others stay (`Segment.expand_join_of_not_isLone`), but a lone one in
front of a colon is taken for the name of a user (`Segment.expand_join_of_isLone`).
-/

set_option autoImplicit false

namespace ShellFold

/-- The characters of a path: letters, digits and four signs. -/
def isPathChar (c : Char) : Bool := c.isAlphanum || c ∈ ['/', '.', '_', '-'] || 128 ≤ c.toNat

/-- A path of a list. -/
structure Segment where
  /-- Whether the path begins in the home directory. -/
  fromHome : Bool
  /-- The path, or what follows the home directory. -/
  path : Text
  isPath : ∀ c ∈ path, isPathChar c = true
  slash : fromHome = true → ∀ c, path.head? = some c → c = '/'

namespace Segment

/-- The path in a home directory. -/
def under (home : Text) (s : Segment) : Text := if s.fromHome then home ++ s.path else s.path

/-- The paths behind the first one. -/
def tail (home : Text) (rest : List Segment) : Text := rest.flatMap fun s => ':' :: s.under home

/-- A list of paths. With a tilde for the home directory it is the source of the list. -/
def join (home : Text) (first : Segment) (rest : List Segment) : Text :=
  first.under home ++ tail home rest

/-- The list begins with a lone tilde in front of a colon. -/
def IsLone (first : Segment) (rest : List Segment) : Prop :=
  first.fromHome = true ∧ first.path = [] ∧ rest ≠ []

variable {home home' : Text} {first s : Segment} {rest : List Segment} {c : Char}

theorem under_of_not_fromHome (h : s.fromHome = false) : s.under home = s.path := by
  rw [under, h]
  rfl

theorem under_of_fromHome (h : s.fromHome = true) : s.under home = home ++ s.path := by
  rw [under, if_pos h]

theorem tail_cons : tail home (s :: rest) = ':' :: (s.under home ++ tail home rest) := rfl

theorem head?_tail (h : (tail home rest).head? = some c) : c = ':' := by
  cases rest with
  | nil => cases h
  | cons s rest => exact (Option.some.inj h).symm

/-! ## Characters -/

theorem mem_under (h : c ∈ s.under home) : c ∈ home ∨ isPathChar c = true := by
  cases hhome : s.fromHome with
  | false =>
    rw [under_of_not_fromHome hhome] at h
    exact .inr (s.isPath c h)
  | true =>
    rw [under_of_fromHome hhome, List.mem_append] at h
    exact h.imp_right (s.isPath c)

theorem mem_tail (h : c ∈ tail home rest) : c ∈ home ∨ c = ':' ∨ isPathChar c = true := by
  obtain ⟨s, -, hc⟩ := List.mem_flatMap.1 h
  rcases List.mem_cons.1 hc with rfl | hc
  · exact .inr (.inl rfl)
  · exact (mem_under hc).imp_right .inr

theorem mem_join (h : c ∈ join home first rest) : c ∈ home ∨ c = ':' ∨ isPathChar c = true := by
  rcases List.mem_append.1 h with h | h
  · exact (mem_under h).imp_right .inr
  · exact mem_tail h

/-- A character with a meaning is none of the source. -/
theorem notMem_source (hpath : isPathChar c = false) (hcolon : c ≠ ':') (htilde : c ≠ '~') :
    c ∉ join ['~'] first rest := by
  intro h
  rcases mem_join h with h | h | h
  · exact htilde (List.mem_singleton.1 h)
  · exact hcolon h
  · rw [hpath] at h
    cases h

theorem isPlain_of_isPathChar (h : isPathChar c = true) : Quoting.isPlain c = true :=
  Quoting.isPlain_of_kind h (by decide)

/-- Behind a tilde at the front, nothing in the source has a meaning. -/
theorem isPlain_of_mem (h : c ∈ s.path ++ tail ['~'] rest) : Quoting.isPlain c = true := by
  rcases List.mem_append.1 h with h | h
  · exact isPlain_of_isPathChar (s.isPath c h)
  · rcases mem_tail h with h | rfl | h
    · rw [List.mem_singleton.1 h]
      decide
    · decide
    · exact isPlain_of_isPathChar h

theorem ne_tilde_of_mem_path (h : c ∈ s.path) : c ≠ '~' := by
  rintro rfl
  cases s.isPath '~' h

theorem tilde_mem_join (h : first.fromHome = true) : '~' ∈ join ['~'] first rest := by
  rw [join, under_of_fromHome h]
  exact .head _

/-! ## The scanner -/

/-- A character may follow another: behind a tilde there is a slash or a colon. -/
def Follows (a b : Char) : Prop := a = '~' → b = '/' ∨ b = ':'

theorem isChain_path (s : Segment) : s.path.IsChain Follows :=
  (List.pairwise_of_forall_mem_list fun _ ha _ _ heq =>
    absurd heq (ne_tilde_of_mem_path ha)).isChain

theorem isChain_under (s : Segment) : (s.under ['~']).IsChain Follows := by
  cases hhome : s.fromHome with
  | false =>
    rw [under_of_not_fromHome hhome]
    exact s.isChain_path
  | true =>
    rw [under_of_fromHome hhome, List.singleton_append, List.isChain_cons]
    exact ⟨fun c hc _ => .inl (s.slash hhome c hc), s.isChain_path⟩

/-- Whatever stands in front of a colon may stand there. -/
theorem isChain_append_tail {front : Text} (hfront : front.IsChain Follows)
    (htail : (tail ['~'] rest).IsChain Follows) : (front ++ tail ['~'] rest).IsChain Follows :=
  List.isChain_append.2 ⟨hfront, htail, fun _ _ _ hc _ => .inr (head?_tail hc)⟩

theorem isChain_tail (rest : List Segment) : (tail ['~'] rest).IsChain Follows := by
  induction rest with
  | nil => exact .nil
  | cons s rest ih =>
    rw [tail_cons, List.isChain_cons]
    exact ⟨fun _ _ => nofun, isChain_append_tail s.isChain_under ih⟩

theorem isChain_join (first : Segment) (rest : List Segment) :
    (join ['~'] first rest).IsChain Follows :=
  isChain_append_tail first.isChain_under (isChain_tail rest)

/-- No character of a list of paths offends. -/
theorem harmless_join (first : Segment) (rest : List Segment) :
    (join ['~'] first rest).Harmless := by
  intro before c hbegins e hoffence
  have hc : c ∈ join ['~'] first rest := hbegins.subset (by simp)
  cases hoffence with
  | glob h => rcases h with rfl | rfl | rfl <;> exact notMem_source rfl (by decide) (by decide) hc
  | directoryStack h hlast =>
    -- a minus sign is a character of a path, but not behind a tilde
    obtain ⟨front, rfl⟩ := List.getLast?_eq_some_iff.1 hlast
    obtain ⟨after, hsource⟩ := hbegins
    have hchain := isChain_join first rest
    rw [← hsource, List.append_assoc, List.append_assoc, List.singleton_append,
      List.singleton_append, List.isChain_append_cons_cons] at hchain
    rcases h with rfl | rfl <;> rcases hchain.2.1 rfl with h | h <;> cases h
  | delete | backtick | command | process | array | assignment | transformation =>
    exact notMem_source rfl (by decide) (by decide) hc

/-- **The scanner accepts every list of paths**, and has it expanded if there is a tilde in it. -/
theorem scan_join (first : Segment) (rest : List Segment) :
    scan (join ['~'] first rest) =
      .ok (if '~' ∈ join ['~'] first rest then .expand else .untouched) := by
  have harithmetic : ¬isPureArithmetic (join ['~'] first rest) = true := fun h =>
    notMem_source rfl (by decide) (by decide) ((isPureArithmetic_iff_begins.1 h).1.subset (.head _))
  have hspecial : (Scanner.past (join ['~'] first rest)).needsExpansion = true ↔
      '~' ∈ join ['~'] first rest := by
    rw [Scanner.needsExpansion_past]
    constructor
    · rintro ⟨c, hc, hexpands⟩
      by_cases htilde : c = '~'
      · exact htilde ▸ hc
      · have hmem := expandsWord_iff.1 hexpands
        simp only [List.mem_cons, List.not_mem_nil, or_false, htilde, false_or] at hmem
        rcases hmem with rfl | rfl | rfl | rfl | rfl <;>
          exact absurd hc (notMem_source rfl (by decide) (by decide))
    · exact fun h => ⟨'~', h, by decide⟩
  rw [scan_of_harmless harithmetic (harmless_join first rest), Scanner.verdict]
  exact congrArg Except.ok (if_congr hspecial rfl rfl)

/-! ## The expansion -/

/-- A lone tilde in front of a colon is taken for the name of a user. -/
theorem expand_join_of_isLone (scope : Scope) (h : IsLone first rest) :
    scope.expand .noSplit (join ['~'] first rest) =
      .error (.unimplemented (.userTilde (Piece.tildeWord (join ['~'] first rest)))) := by
  obtain ⟨hfrom, hpath, hrest⟩ := h
  obtain ⟨s, rest, rfl⟩ := List.exists_cons_of_ne_nil hrest
  have hsource : join ['~'] first (s :: rest) =
      '~' :: ':' :: (s.under ['~'] ++ tail ['~'] rest) := by
    rw [join, under_of_fromHome hfrom, hpath, tail_cons]
    rfl
  have hhides : (Piece.tildeWord (join ['~'] first (s :: rest))).any Piece.hidesTilde = false := by
    refine List.any_eq_false.2 fun c hc hhides => ?_
    simp only [Piece.hidesTilde, Bool.or_eq_true, decide_eq_true_eq, or_assoc] at hhides
    have hmem := (List.takeWhile_prefix _).subset hc
    rcases hhides with rfl | rfl | rfl | rfl <;>
      exact notMem_source rfl (by decide) (by decide) hmem
  rw [hsource] at hhides ⊢
  rw [Scope.expand, Piece.ofText_tilde hhides]
  rfl

/-- Any other tilde at the front expands, and no tilde behind it. -/
theorem expand_join_of_not_isLone {scope : Scope}
    (hhome : scope.value? "HOME".toList = some home) (h : ¬IsLone first rest) :
    scope.expand .noSplit (join ['~'] first rest) =
      .ok [first.under home ++ tail ['~'] rest] := by
  rw [join]
  cases hfrom : first.fromHome with
  | false =>
    have hhead : (first.path ++ tail ['~'] rest).head? ≠ some '~' := by
      intro hhead
      cases hpath : first.path with
      | nil =>
        rw [hpath] at hhead
        cases head?_tail hhead
      | cons c path =>
        rw [hpath] at hhead
        have hc : c ∈ first.path := hpath ▸ .head path
        exact ne_tilde_of_mem_path hc (Option.some.inj hhead)
    rw [under_of_not_fromHome hfrom, under_of_not_fromHome hfrom,
      scope.expand_plain (by decide) (Piece.ofText_of_head hhead) fun _ => isPlain_of_mem]
  | true =>
    have hhead : ∀ c, (first.path ++ tail ['~'] rest).head? = some c → c = '/' := by
      intro c hhead
      cases hpath : first.path with
      | nil =>
        have hrest : rest = [] := Decidable.byContradiction fun hrest => h ⟨hfrom, hpath, hrest⟩
        rw [hpath, hrest] at hhead
        cases hhead
      | cons d path =>
        rw [hpath] at hhead
        exact first.slash hfrom c (by rw [hpath, ← hhead]; rfl)
    rw [under_of_fromHome hfrom, under_of_fromHome hfrom, List.append_assoc, List.append_assoc,
      List.singleton_append, Scope.expand, Piece.ofText_home hhead, Piece.evalAll, Piece.eval,
      hhome]
    exact scope.finish_plain (Fields.literal {} home) fun _ => isPlain_of_mem

/-- Without a tilde there is nothing to expand. -/
theorem join_of_notMem (home : Text) (h : '~' ∉ join ['~'] first rest) :
    join ['~'] first rest = first.under home ++ tail ['~'] rest := by
  have hfrom : first.fromHome = false := Bool.eq_false_iff.2 fun hfrom => h (tilde_mem_join hfrom)
  rw [join, under_of_not_fromHome hfrom, under_of_not_fromHome hfrom]

/-! ## Different home directories -/

/-- Each path that begins in the home directory is longer by its length. -/
theorem length_tail (home : Text) (rest : List Segment) :
    (tail home rest).length =
      (tail [] rest).length + rest.countP fromHome * home.length := by
  induction rest with
  | nil => simp [tail]
  | cons s rest ih =>
    rw [tail_cons, tail_cons, List.length_cons, List.length_cons, List.length_append,
      List.length_append, ih]
    cases h : s.fromHome with
    | false =>
      rw [under_of_not_fromHome h, under_of_not_fromHome h, List.countP_cons_of_neg (by simp [h])]
      omega
    | true =>
      rw [under_of_fromHome h, under_of_fromHome h, List.countP_cons_of_pos h, Nat.succ_mul,
        List.length_append, List.nil_append]
      omega

/-- Lists of paths in two home directories are the same only if none of them begins there. -/
theorem tail_eq_iff :
    tail home rest = tail home' rest ↔ home = home' ∨ ∀ s ∈ rest, s.fromHome = false := by
  induction rest with
  | nil => exact iff_of_true rfl (.inr nofun)
  | cons s rest ih =>
    rw [tail_cons, tail_cons, List.cons_inj_right, List.forall_mem_cons]
    cases h : s.fromHome with
    | false =>
      rw [under_of_not_fromHome h, under_of_not_fromHome h, List.append_cancel_left_eq, ih]
      simp
    | true =>
      simp only [Bool.true_eq_false, false_and, or_false]
      refine ⟨fun heq => ?_, fun heq => by rw [heq]⟩
      rw [under_of_fromHome h, under_of_fromHome h, List.append_assoc, List.append_assoc] at heq
      -- the directories are of one length, since the same number of paths begins in both
      have hlength := congrArg List.length heq
      simp only [List.length_append, length_tail home, length_tail home'] at hlength
      have hhome : home.length = home'.length := by
        refine Nat.eq_of_mul_eq_mul_left (rest.countP fromHome).succ_pos ?_
        rw [Nat.succ_mul, Nat.succ_mul]
        omega
      exact List.append_inj_left heq hhome

end Segment

end ShellFold
