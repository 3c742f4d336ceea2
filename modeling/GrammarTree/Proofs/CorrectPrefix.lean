/-
# Complaints come at the right token

When the parser complains about a token, what stands in front of it is the beginning of a grammar,
and with that token it is the beginning of none.  So a complaint comes neither too early nor too
late.

Texts that cannot be cut into tokens are refused for that reason, or for a token that stands in front
of the place where they cannot be cut.
-/
import Mathlib.Control.Monad.Basic
import GrammarTree.Proofs.Acceptance
import GrammarTree.Proofs.Position

namespace GrammarTree

open Parse

/-- `Accepted ks`: some text that is parsed has tokens of the kinds `ks`, comments left out. -/
def Accepted (ks : List TokenKind) : Prop :=
  ∃ source tree tokens, parse source = .ok tree ∧ tokenize source = .ok tokens ∧
    (Token.significant tokens).map (·.kind) = ks

lemma IsSentence.accepted {ks : List TokenKind} (h : IsSentence ks) : Accepted ks := by
  obtain ⟨source, tree, hparse, hkinds⟩ := h.exists_source
  obtain ⟨g, -, -, hfault, -⟩ := exists_phrase_of_grammar hparse
  exact ⟨source, tree, _, hparse, tokenize_eq_ok_iff.2 ⟨hfault, rfl⟩, hkinds⟩

/-- Where a complaint about a token comes, the kinds of the tokens in front of it can be completed to
those of a text that is parsed, and not with the kind of that token. -/
lemma accepted_of_unexpected {source : String} {expected : Expected} {found : Token}
    (h : parse source = .error (.unexpected expected found)) :
    ∃ us later, Token.significant (Stream.ofSource source).tokens = us ++ found :: later ∧
      (∃ ks, us.map (·.kind) <+: ks ∧ Accepted ks) ∧
      ∀ ks, (us ++ [found]).map (·.kind) <+: ks → ¬ Accepted ks := by
  obtain ⟨us, later, htokens, ⟨ls, hsentence⟩, hrefused⟩ := exists_of_unexpected h
  refine ⟨us, later, htokens, ⟨_, List.prefix_append _ ls, hsentence.accepted⟩, ?_⟩
  rintro ks hks ⟨other, tree, tokens, hparse, htokenize, rfl⟩
  obtain ⟨-, rfl⟩ := tokenize_eq_ok_iff.1 htokenize
  obtain ⟨e, he⟩ := hrefused _ hks
  rw [parse, he] at hparse
  cases hparse

/-- A text that cannot be cut into tokens is refused for that, or for a token before that. -/
lemma parse_of_fault? {source : String} {fault : ScanError}
    (h : (Stream.ofSource source).fault? = some fault) :
    parse source = .error (.scan fault) ∨
      ∃ expected found, parse source = .error (.unexpected expected found) ∧
        found.position.Before fault.position := by
  cases hparse : parse source with
  | ok tree =>
    obtain ⟨g, -, -, hnone, -⟩ := exists_phrase_of_grammar hparse
    rw [h] at hnone
    cases hnone
  | error e =>
    cases e with
    | scan f =>
      have hf := fault?_of_grammar hparse
      rw [h] at hf
      cases hf
      exact Or.inl rfl
    | unexpected expected found =>
      obtain ⟨us, later, htokens, -, -⟩ := exists_of_unexpected hparse
      have hmem : found ∈ Token.significant (Stream.ofSource source).tokens := by
        rw [htokens]
        simp
      have hmem' : found ∈ (Stream.ofSource source).tokens := (List.mem_filter.1 hmem).1
      exact Or.inr ⟨expected, found, rfl, before_of_fault? h hmem'⟩

/-- A complaint is about a token of the text that is no comment, and it has the position and the
description of that token.  The kinds of the tokens in front of it can be completed to those of a
text that is parsed, and not with the kind of that token.  If the text cannot be cut into tokens, it
is refused for that or for a token in front of the fault; otherwise it is not refused for a fault. -/
theorem complaint_at_first_wrong_token (source : String) :
    (∀ expected found, parse source = .error (.unexpected expected found) →
      (SyntaxError.unexpected expected found).position = found.position ∧
      (SyntaxError.unexpected expected found).message = "Expected " ++ expected.text ++
        " but found " ++ found.describe ++ " at " ++ found.position.text ∧
      ∃ us later, Token.significant (Stream.ofSource source).tokens = us ++ found :: later ∧
        (∃ ks, us.map (·.kind) <+: ks ∧ Accepted ks) ∧
        ∀ ks, (us ++ [found]).map (·.kind) <+: ks → ¬ Accepted ks) ∧
    (∀ fault, tokenize source = .error fault →
      parse source = .error (.scan fault) ∨
        ∃ expected found, parse source = .error (.unexpected expected found) ∧
          found.position.Before fault.position) ∧
    ∀ tokens, tokenize source = .ok tokens → ∀ fault, parse source ≠ .error (.scan fault) := by
  refine ⟨?_, ?_, ?_⟩
  · intro expected found h
    exact ⟨rfl, rfl, accepted_of_unexpected h⟩
  · intro fault h
    exact parse_of_fault? (tokenize_eq_error_iff.1 h)
  · intro tokens htokens fault h
    obtain ⟨hnone, -⟩ := tokenize_eq_ok_iff.1 htokens
    rw [fault?_of_grammar h] at hnone
    cases hnone

/-- A complaint about the token behind `a =`, and an unclosed quote behind a complaint. -/
theorem complaint_at_semicolon :
    (∃ us later, Token.significant (Stream.ofSource "a = ;").tokens =
        us ++ ⟨.symbol .semicolon, ";", ⟨1, 5⟩⟩ :: later ∧
      (∃ ks, us.map (·.kind) <+: ks ∧ Accepted ks) ∧
      ∀ ks, (us ++ [⟨.symbol .semicolon, ";", ⟨1, 5⟩⟩]).map (·.kind) <+: ks → ¬ Accepted ks) ∧
    (parse "a = ; '" = .error (.scan (.unterminatedLiteral ⟨1, 7⟩)) ∨
      ∃ expected found, parse "a = ; '" = .error (.unexpected expected found) ∧
        found.position.Before ⟨1, 7⟩) ∧
    parse "a = ;" ≠ .error (.scan (.unterminatedComment ⟨1, 1⟩)) := by
  have hparse : parse "a = ;" =
      .error (.unexpected .expression ⟨.symbol .semicolon, ";", ⟨1, 5⟩⟩) := by
    decide +kernel
  have hfault : tokenize "a = ; '" = .error (.unterminatedLiteral ⟨1, 7⟩) := by decide +kernel
  have htokens : tokenize "a = ;" = .ok [⟨.identifier, "a", ⟨1, 1⟩⟩, ⟨.symbol .equals, "=", ⟨1, 3⟩⟩,
      ⟨.symbol .semicolon, ";", ⟨1, 5⟩⟩, ⟨.endOfInput, "", ⟨1, 6⟩⟩] := by decide +kernel
  refine ⟨?_, ?_, ?_⟩
  · exact ((complaint_at_first_wrong_token "a = ;").1 _ _ hparse).2.2
  · exact (complaint_at_first_wrong_token "a = ; '").2.1 _ hfault
  · exact (complaint_at_first_wrong_token "a = ;").2.2 _ htokens _

end GrammarTree
