/-!
# Line ends

Files may end their lines in any of three ways; scripts know the newline only.
-/

namespace EmbeddedTcl

/-- Turns each carriage return, alone or with a newline after it, into one newline. -/
def unifyNewlines : List Char → List Char
  | [] => []
  | '\r' :: '\n' :: rest => '\n' :: unifyNewlines rest
  | '\r' :: rest => '\n' :: unifyNewlines rest
  | c :: rest => c :: unifyNewlines rest

end EmbeddedTcl
