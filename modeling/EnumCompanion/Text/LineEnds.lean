import EnumCompanion.Text.Basic

/-!
# Line ends

Text that is read from a file or a stream has line feeds for all line ends: a
carriage return becomes a line feed, together with one that follows it.
-/

namespace EnumCompanion.Text

/-- A text with a line feed for each of its line ends. -/
def withLineFeeds : Text → Text
  | [] => []
  | '\r' :: '\n' :: rest => '\n' :: withLineFeeds rest
  | c :: rest => (if c = '\r' then '\n' else c) :: withLineFeeds rest

end EnumCompanion.Text
