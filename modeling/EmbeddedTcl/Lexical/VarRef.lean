/-!
# Variable references

What follows a dollar sign: a name in braces, or a plain name with an optional index in
parentheses.
-/

namespace EmbeddedTcl

def isNameChar (c : Char) : Bool :=
  c.isAlphanum || c == '_' || c == ':'

def isIndexChar (c : Char) : Bool :=
  c.isAlphanum || c == '_' || c == ','

/-- A reference read off the front of a text: the name proper, the index with the parentheses that
were there, and the text left. -/
structure VarRef (text : List Char) where
  base : List Char
  index : List Char
  rest : List Char
  within : rest <:+ text

namespace VarRef

/-- The name of the variable referred to. -/
def name {text : List Char} (r : VarRef text) : String :=
  String.ofList (r.base ++ r.index)

/-- A name in braces ends at the first closing brace, or with the text. -/
def readBraced (text : List Char) : VarRef text :=
  ⟨text.takeWhile (· != '}'), [], (text.dropWhile (· != '}')).drop 1,
    (List.drop_suffix 1 _).trans (List.dropWhile_suffix _)⟩

/-- The character that ends an index is read with it, but belongs to the name only if it is a
closing parenthesis. -/
def readIndex (base : List Char) (text : List Char) : VarRef text :=
  let index := text.takeWhile isIndexChar
  ⟨base,
    '(' :: (index ++ if (text.dropWhile isIndexChar).head? = some ')' then [')'] else []),
    (text.dropWhile isIndexChar).drop 1,
    (List.drop_suffix 1 _).trans (List.dropWhile_suffix _)⟩

def readPlain (text : List Char) : VarRef text :=
  let base := text.takeWhile isNameChar
  match h : text.dropWhile isNameChar with
  | '(' :: rest =>
    let r := readIndex base rest
    ⟨base, r.index, r.rest,
      r.within.trans ((List.suffix_cons '(' rest).trans (h ▸ List.dropWhile_suffix _))⟩
  | rest => ⟨base, [], rest, h ▸ List.dropWhile_suffix _⟩

/-- Reads what follows a dollar sign. -/
def read : (text : List Char) → VarRef text
  | '{' :: rest =>
    let r := readBraced rest
    ⟨r.base, r.index, r.rest, r.within.trans (List.suffix_cons '{' rest)⟩
  | text => readPlain text

end VarRef

end EmbeddedTcl
