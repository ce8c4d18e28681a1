import DotAttributes.Proofs.Arrow.Indexed
import DotAttributes.Proofs.Color.Indexed
import DotAttributes.Proofs.Markup.Indexed
import DotAttributes.Proofs.Record.Indexed
import DotAttributes.Proofs.Style.Indexed

/-!
# No text makes a reader fail

A reader that goes over a text by offsets depends on operations that can fail: slices, which need
two boundaries of the text in order, subtractions, which may not go below zero, and steps over a
character, which there has to be. Here is for all readers, and for the checks that need such
operations, what they amount to: they never fail, and give what the readers give that take a text
apart from its front (`indexed_eq_some`).
-/

namespace DotAttributes

open Text

/-- **No text makes a reader fail.** Whatever text is read by offsets, as an arrow type, a color, a
color list, a style list, a markup label or a record label, no slice, no subtraction, no step over
a character fails on the way, every round gets further, and the outcome is the one that it should
be. The same holds for cutting a markup label into tokens. The tokens of a record label are cut
without such operations; their places, from which the label is sliced afterwards, are good ones.

Of the checks only those of arrow types subtract and only those of colors slice. They do not fail
either, on any arrow type that has been read and on any colors. -/
theorem indexed_eq_some (text : List Char) :
    Arrow.Indexed.read? text = some (Arrow.read text) ∧
    (∀ arrow, Arrow.read text = .ok arrow → ∀ deprecations whole,
      Arrow.Indexed.check? deprecations whole arrow =
        some (Arrow.check deprecations whole arrow)) ∧
    Color.Indexed.read? text = some (Color.read text) ∧
    Color.Indexed.readList? text = some (Color.readList text) ∧
    (∀ site items, Color.Indexed.check? site items = some (Color.check site items)) ∧
    Style.Indexed.read? text = some (Style.read text) ∧
    Markup.Indexed.lex? text = some (.ofLexed (Markup.lex text)) ∧
    Markup.Indexed.read? text = some (Markup.read text) ∧
    (∀ token ∈ Record.tokens text, slice? text token.span = some token.text) ∧
    Record.Indexed.read? text = some (Record.read text) := by
  refine ⟨?arrow, ?arrowCheck, ?color, ?colors, ?colorCheck, ?style, ?tokens, ?markup,
    ?recordTokens, ?record⟩
  case arrow => exact Arrow.Indexed.read?_eq text
  case arrowCheck => exact fun _ hread => Arrow.Indexed.check?_eq hread
  case color => exact Color.Indexed.read?_eq text
  case colors => exact Color.Indexed.readList?_eq text
  case colorCheck => exact Color.Indexed.check?_eq
  case style => exact Style.Indexed.read?_eq text
  case tokens => exact Markup.Indexed.lex?_eq text
  case markup => exact Markup.Indexed.read?_eq text
  case recordTokens =>
    intro token htoken
    exact slice?_eq_some_iff.2 (Record.standsAt_tokens text token htoken).1
  case record => exact Record.Indexed.read?_eq text

end DotAttributes
