/-!
# Lists of texts

Joining texts with a separator, and splitting a text at a character.
-/

namespace KernelIR.Text

/-- The texts one after the other. -/
def concat : List String → String
  | [] => ""
  | s :: rest => s ++ concat rest

/-- The texts with a separator between them. -/
def joined (separator : String) : List String → String
  | [] => ""
  | [s] => s
  | s :: t :: rest => s ++ separator ++ joined separator (t :: rest)

/-- The parts of a text between the occurrences of a character.  There is always one more part than
there are occurrences. -/
def splitAt (mark : Char) : List Char → List (List Char)
  | [] => [[]]
  | c :: rest =>
    if c = mark then [] :: splitAt mark rest
    else match splitAt mark rest with
      | part :: parts => (c :: part) :: parts
      | [] => [[c]]

end KernelIR.Text
