import Stencil.Text.Basic

/-!
# Markup escapes

The five characters that have a meaning in markup, written as entities.
-/

namespace Stencil
namespace Text

def entity (c : Char) : List Char :=
  match c with
  | '&' => "&amp;".toList
  | '<' => "&lt;".toList
  | '>' => "&gt;".toList
  | '"' => "&quot;".toList
  | '\'' => "&#x27;".toList
  | other => [other]

def escapeMarkup (t : Text) : Text :=
  t.mapChars entity

end Text
end Stencil
